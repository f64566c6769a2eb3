import Mathlib
import VoiceHub.Lib.Ip
import VoiceHub.Lib.Percent
import VoiceHub.Lib.Text

/-!
Whose request it is: the peer, or behind trusted proxies the first untrusted hop of
`X-Forwarded-For`, read from the right.

What stands left of that hop was put there by the client. It is not read, but a byte in it that
is not ASCII makes the whole header unreadable.
-/

namespace VoiceHub.Http

open VoiceHub.Lib VoiceHub.Lib.Ip VoiceHub.Lib.Text

/-! ### Trusted proxies -/

def maxBits : IpAddr → ℕ
  | .v4 _ => 32
  | .v6 _ => 128

/-- CIDR prefix, e.g. `10.0.0.0/8`. -/
structure Prefix where
  addr : IpAddr
  bits : ℕ
  le : bits ≤ maxBits addr

/-- The highest `bits` bits of `width`. -/
def mask (width bits : ℕ) : BitVec width :=
  if bits = 0 then 0 else BitVec.allOnes width <<< (width - bits)

def Prefix.contains (p : Prefix) (ip : IpAddr) : Bool :=
  match p.addr, ip with
  | .v4 net, .v4 ip => net &&& mask 32 p.bits = ip &&& mask 32 p.bits
  | .v6 net, .v6 ip => net &&& mask 128 p.bits = ip &&& mask 128 p.bits
  | _, _ => false

/-- Loopback only (direct dev connections). -/
def loopback : List Prefix := [⟨.v4 0x7f000000#32, 8, by decide⟩, ⟨.v6 1#128, 128, by decide⟩]

/-! ### The client -/

/-- What a header's value may contain. -/
def HeaderByte (b : UInt8) : Prop := b = 0x09 ∨ (0x20 ≤ b ∧ b ≠ 0x7f)

instance : DecidablePred HeaderByte := fun _ => inferInstanceAs (Decidable (_ ∨ _))

/-- What `to_str` takes. -/
def visibleAscii (b : UInt8) : Bool := b = 0x09 ∨ (0x20 ≤ b ∧ b < 0x7f)

/-- The characters of ASCII bytes. -/
def text (bytes : List UInt8) : List Char := bytes.map Percent.char

/-- `v.to_str().ok()`. -/
def toStr (bytes : List UInt8) : Option (List Char) :=
  if bytes.all visibleAscii then some (text bytes) else none

section Client

variable (peer : IpAddr) (xForwardedFor : Option (List UInt8)) (trusted : List Prefix)

def isTrusted (ip : IpAddr) : Bool := trusted.any fun p => p.contains ip

/-- The first untrusted hop. A malformed one fails safe to `addr`. -/
def walk (addr : IpAddr) : List (List Char) → IpAddr
  | [] => addr
  | part :: parts =>
    match Ip.parse (trim part) with
    | none => addr
    | some cand => if isTrusted trusted (unmap cand) then walk addr parts else unmap cand

/-- The request's source IP. `X-Forwarded-For` counts only when the TCP peer is a trusted
proxy. -/
def clientIp : List Char :=
  let addr := unmap peer
  if ¬ isTrusted trusted addr then addr.display
  else
    match xForwardedFor.bind toStr with
    | none => addr.display
    | some xff =>
      if xff = [] then addr.display else (walk trusted addr (xff.splitOn ',').reverse).display

end Client

/-! ### Where the walk stops -/

inductive Stop
  | malformed
  | untrusted (cand : IpAddr)
  deriving DecidableEq

/-- The first hop that is not a trusted proxy. -/
def firstStop (trusted : List Prefix) : List (List Char) → Option Stop
  | [] => none
  | part :: parts =>
    match Ip.parse (trim part) with
    | none => some .malformed
    | some cand =>
      if isTrusted trusted (unmap cand) then firstStop trusted parts
      else some (.untrusted (unmap cand))

/-- The hops of a line, the last first. -/
def hops (line : List UInt8) : List (List Char) := ((text line).splitOn ',').reverse

/-- A hop that is a trusted proxy. -/
def TrustedHop (trusted : List Prefix) (part : List Char) : Prop :=
  ∃ cand, Ip.parse (trim part) = some cand ∧ isTrusted trusted (unmap cand) = true

/-- `result` is the peer, or an untrusted hop such that the peer and all hops to its right are
trusted. -/
def Explained (trusted : List Prefix) (peer : IpAddr) (line : Option (List UInt8))
    (result : List Char) : Prop :=
  result = (unmap peer).display ∨
    isTrusted trusted (unmap peer) = true ∧ ∃ bytes ∈ line, ∃ left part right cand,
      (text bytes).splitOn ',' = left ++ part :: right ∧
      Ip.parse (trim part) = some cand ∧ isTrusted trusted (unmap cand) = false ∧
      (∀ part ∈ right, TrustedHop trusted part) ∧ result = (unmap cand).display

section Walk

variable {peer addr : IpAddr} {trusted : List Prefix} {z h bytes : List UInt8} {b : UInt8}
  {parts rest : List (List Char)} {ip : IpAddr} {line : Option (List UInt8)}

/-- What the walk returns, by where it stops. -/
def Stop.result (addr : IpAddr) : Option Stop → IpAddr
  | some (.untrusted cand) => cand
  | some .malformed | none => addr

lemma walk_eq (addr : IpAddr) (parts : List (List Char)) :
    walk trusted addr parts = Stop.result addr (firstStop trusted parts) := by
  induction parts with
  | nil => rfl
  | cons part parts ih =>
    rw [walk, firstStop]
    cases Ip.parse (trim part) with
    | none => rfl
    | some cand =>
      dsimp only
      split_ifs
      · exact ih
      · rfl

lemma firstStop_append (hstop : firstStop trusted parts ≠ none) (rest : List (List Char)) :
    firstStop trusted (parts ++ rest) = firstStop trusted parts := by
  induction parts with
  | nil => exact absurd rfl hstop
  | cons part parts ih =>
    rw [firstStop] at hstop
    rw [List.cons_append, firstStop, firstStop]
    cases hparse : Ip.parse (trim part) with
    | none => rfl
    | some cand =>
      rw [hparse] at hstop
      dsimp only at hstop ⊢
      split_ifs at hstop ⊢
      · exact ih hstop
      · rfl

lemma firstStop_untrusted (hstop : firstStop trusted parts = some (.untrusted ip)) :
    ∃ before part after cand, parts = before ++ part :: after ∧
      Ip.parse (trim part) = some cand ∧ unmap cand = ip ∧ isTrusted trusted ip = false ∧
      ∀ part ∈ before, TrustedHop trusted part := by
  induction parts with
  | nil => cases hstop
  | cons part parts ih =>
    rw [firstStop] at hstop
    cases hparse : Ip.parse (trim part) with
    | none =>
      rw [hparse] at hstop
      cases hstop
    | some cand =>
      rw [hparse] at hstop
      dsimp only at hstop
      split_ifs at hstop with htrusted
      · obtain ⟨before, part', after, cand', rfl, hparse', hip, huntrusted, hbefore⟩ := ih hstop
        refine ⟨part :: before, part', after, cand', rfl, hparse', hip, huntrusted, ?_⟩
        intro p hp
        rcases List.mem_cons.mp hp with rfl | hp
        · exact ⟨cand, hparse, htrusted⟩
        · exact hbefore p hp
      · cases hstop
        exact ⟨[], part, parts, cand, rfl, hparse, rfl, Bool.eq_false_of_not_eq_true htrusted,
          by simp⟩

lemma clientIp_untrusted (hpeer : isTrusted trusted (unmap peer) = false)
    (line : Option (List UInt8)) : clientIp peer line trusted = (unmap peer).display := by
  rw [clientIp, hpeer]
  rfl

lemma clientIp_unreadable (hline : line.bind toStr = none) :
    clientIp peer line trusted = (unmap peer).display := by
  rw [clientIp, hline]
  exact ite_self _

lemma clientIp_readable (hpeer : isTrusted trusted (unmap peer) = true)
    (hbytes : bytes.all visibleAscii = true) : clientIp peer (some bytes) trusted =
      (Stop.result (unmap peer) (firstStop trusted (hops bytes))).display := by
  have hstr : toStr bytes = some (text bytes) := if_pos hbytes
  rw [clientIp, Option.bind_some, hstr]
  dsimp only
  rw [if_neg (not_not_intro hpeer)]
  split_ifs with hnil
  · rw [hops, hnil]
    rfl
  · rw [walk_eq, hops]

lemma hops_append (z h : List UInt8) : hops (z ++ 0x2c :: h) = hops h ++ hops z := by
  have hcomma : Percent.char 0x2c = ',' := by decide
  rw [hops, text, List.map_append, List.map_cons, hcomma, List.splitOn_append_cons_self,
    List.reverse_append]
  rfl

lemma visible_byte (h : HeaderByte b) : visibleAscii b = true ↔ b < 0x80 := by
  rw [visibleAscii, decide_eq_true_eq]
  rcases h with rfl | ⟨hlo, hne⟩
  · decide
  · have hne' : b.toNat ≠ 0x7f := fun hb => hne (UInt8.toNat_inj.mp hb)
    have hlo' : 0x20 ≤ b.toNat := UInt8.le_iff_toNat_le.mp hlo
    simp only [UInt8.lt_iff_toNat_lt, UInt8.le_iff_toNat_le, ← UInt8.toNat_inj]
    simp only [UInt8.reduceToNat]
    omega

lemma visible_iff (hz : ∀ b ∈ z, HeaderByte b) :
    z.all visibleAscii = true ↔ ∀ b ∈ z, b < 0x80 := by
  rw [List.all_eq_true]
  exact forall₂_congr fun b hb => visible_byte (hz b hb)

lemma visible_append (z h : List UInt8) (hh : h.all visibleAscii = true) :
    (z ++ 0x2c :: h).all visibleAscii = z.all visibleAscii := by
  have hcomma : visibleAscii 0x2c = true := by decide
  rw [List.all_append, List.all_cons, hh, hcomma, Bool.and_self, Bool.and_true]

/-- **The result is explained by the line.** -/
lemma explained (trusted : List Prefix) (peer : IpAddr) (line : Option (List UInt8)) :
    Explained trusted peer line (clientIp peer line trusted) := by
  by_cases hpeer : isTrusted trusted (unmap peer) = true
  · cases line with
    | none => exact .inl (clientIp_unreadable rfl)
    | some bytes =>
      by_cases hbytes : bytes.all visibleAscii = true
      · rw [clientIp_readable hpeer hbytes]
        cases hstop : firstStop trusted (hops bytes) with
        | none => exact .inl rfl
        | some stop =>
          cases stop with
          | malformed => exact .inl rfl
          | untrusted ip =>
            obtain ⟨before, part, after, cand, hhops, hparse, rfl, huntrusted, hbefore⟩ :=
              firstStop_untrusted hstop
            refine .inr ⟨hpeer, bytes, rfl, after.reverse, part, before.reverse, cand, ?_, hparse,
              huntrusted, fun p hp => hbefore p (List.mem_reverse.mp hp), rfl⟩
            rw [← List.reverse_reverse ((text bytes).splitOn ',')]
            change (hops bytes).reverse = _
            rw [hhops]
            simp
      · exact .inl (clientIp_unreadable (if_neg hbytes))
  · exact .inl (clientIp_untrusted (Bool.eq_false_of_not_eq_true hpeer) line)

/-- **The prefix is not read, but it must be ASCII.** With a header that stops at one of its own
hops, more in front of it changes nothing just when that is ASCII, or the header is not read as
far as an untrusted hop anyway. -/
theorem clientIp_prefix (trusted : List Prefix) (peer : IpAddr) (hz : ∀ b ∈ z, HeaderByte b)
    (hh : ∀ b ∈ h, visibleAscii b = true) (hstop : firstStop trusted (hops h) ≠ none) :
    (clientIp peer (some (z ++ 0x2c :: h)) trusted = clientIp peer (some h) trusted ↔
      (∀ b ∈ z, b < 0x80) ∨ isTrusted trusted (unmap peer) = false ∨
        firstStop trusted (hops h) = some .malformed) ∧
    ∀ line, Explained trusted peer line (clientIp peer line trusted) := by
  refine ⟨?_, explained trusted peer⟩
  have hread : h.all visibleAscii = true := List.all_eq_true.mpr hh
  by_cases hpeer : isTrusted trusted (unmap peer) = true
  swap
  · have hfalse := Bool.eq_false_of_not_eq_true hpeer
    rw [clientIp_untrusted hfalse, clientIp_untrusted hfalse]
    exact iff_of_true rfl (.inr (.inl hfalse))
  rw [clientIp_readable hpeer hread]
  by_cases hascii : ∀ b ∈ z, b < 0x80
  · have hline : (z ++ 0x2c :: h).all visibleAscii = true := by
      rw [visible_append z h hread, (visible_iff hz).mpr hascii]
    rw [clientIp_readable hpeer hline, hops_append, firstStop_append hstop]
    exact iff_of_true rfl (.inl hascii)
  · have hline : ((some (z ++ 0x2c :: h)).bind toStr) = none := by
      refine if_neg ?_
      rw [visible_append z h hread, visible_iff hz]
      exact hascii
    rw [clientIp_unreadable hline, hpeer]
    cases hfirst : firstStop trusted (hops h) with
    | none => exact absurd hfirst hstop
    | some stop =>
      cases stop with
      | malformed => exact iff_of_true rfl (.inr (.inr rfl))
      | untrusted ip =>
        -- the peer is trusted and the hop is not
        obtain ⟨-, -, -, -, -, -, -, huntrusted, -⟩ := firstStop_untrusted hfirst
        refine iff_of_false (fun heq => ?_) ?_
        · have hip : unmap peer = ip := display_injective heq
          rw [← hip, hpeer] at huntrusted
          cases huntrusted
        · simp [hascii]

/-- `10.0.0.0/8`. -/
def privateNet : Prefix := ⟨.v4 0x0a000000#32, 8, by decide⟩

/-- `9.9.9.9`, that a proxy at `10.0.0.1` was reached from. -/
def reachedFrom : List UInt8 := Percent.utf8 "9.9.9.9".toList

/-- The client had sent `1.1.1.1`. -/
theorem clientIp_prefix_ascii :
    let z := Percent.utf8 "1.1.1.1".toList
    let peer := IpAddr.v4 0x0a000001#32
    (clientIp peer (some (z ++ 0x2c :: reachedFrom)) [privateNet] =
        clientIp peer (some reachedFrom) [privateNet] ↔
      (∀ b ∈ z, b < 0x80) ∨ isTrusted [privateNet] (unmap peer) = false ∨
        firstStop [privateNet] (hops reachedFrom) = some .malformed) ∧
    ∀ line, Explained [privateNet] peer line (clientIp peer line [privateNet]) :=
  clientIp_prefix [privateNet] _ (@of_decide_eq_true _ (List.decidableBAll HeaderByte _) rfl)
    (List.all_eq_true.mp rfl) (by decide +kernel)

/-- A client that sends the byte `0x80` is taken for the proxy. -/
theorem clientIp_prefix_unreadable :
    clientIp (.v4 0x0a000001#32) (some reachedFrom) [privateNet] = "9.9.9.9".toList ∧
    clientIp (.v4 0x0a000001#32) (some (0x80 :: 0x2c :: reachedFrom)) [privateNet] =
      "10.0.0.1".toList := by
  decide +kernel

end Walk

end VoiceHub.Http
