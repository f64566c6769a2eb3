import Mathlib
import VoiceHub.Client.Session

/-!
A muted microphone is not heard, and a deafened page hears nothing.

The mute buttons set the track of the graph the page holds, so what matters is that this is the
track that is sent, whichever of the asynchronous steps put it there.
-/

namespace VoiceHub.Client.Session

open Function VoiceHub.Lib.Machine

/-- What the code does not look at. The mute state is as a swap of the microphone or the resuming
of a share found it, when the track that it put in comes to be sent; neither a swap nor a failed
resuming outlives the microphone it began with, and no resuming the connection. -/
def clean (p : Page) : Event → Bool
  | .welcome n => (p.voice.conns n).all fun c => c.asked.all (· == p.store.selfMuted)
  | .replaced k =>
    match p.voice.swaps k with
    | some (.replacing n muted) =>
      (p.voice.conns n).all fun c => !c.phase.welcomed || muted == p.store.selfMuted
    | _ => true
  | .built _ => p.voice.conn?.isSome || p.voice.micGraph.isSome
  | .resumed n => (p.voice.conns n).isSome
  | .refused n =>
    match p.voice.waits n with
    | some (.reconnect _ graph) => p.voice.micGraph == some graph
    | _ => true
  | .unresumed n =>
    match p.voice.waits n with
    | some (.resume _ graph) => p.voice.micGraph == some graph
    | _ => true
  | _ => true

/-- What the user has asked for is what is heard, kept, sent and told. -/
structure Obeyed (p : Page) : Prop where
  muted : p.store.deafened = true → p.store.selfMuted = true
  silent : p.store.deafened = true → ∀ id gain, p.remote.audio id = some gain → gain = 0
  saved : p.saved = p.store
  sent : ∀ n c, p.voice.conns n = some c → c.phase.welcomed = true →
    p.voice.enabled c.sender = !p.store.selfMuted
  told : ∀ n c, p.voice.conns n = some c → c.phase = .up → c.ws = true →
    c.told = (p.store.selfMuted, p.store.deafened)

/-! ### The settings -/

/-- What holds of the settings in every run. -/
structure Page.Settled (p : Page) : Prop where
  muted : p.store.deafened = true → p.store.selfMuted = true
  silent : p.store.deafened = true → ∀ id gain, p.remote.audio id = some gain → gain = 0
  saved : p.saved = p.store

namespace Page.Settled

variable {p q : Page}

lemma load {s : Settings} (hs : s.deafened = true → s.selfMuted = true) : (load s).Settled where
  muted := hs
  silent _ _ _ h := by cases h
  saved := rfl

lemma congr (h : p.Settled) (hstore : q.store = p.store) (hsaved : q.saved = p.saved)
    (hr : ∀ id gain, q.remote.audio id = some gain → p.remote.audio id = some gain) :
    q.Settled where
  muted := hstore ▸ h.muted
  silent hd id gain hg := h.silent (hstore ▸ hd) id gain (hr id gain hg)
  saved := hstore ▸ hsaved ▸ h.saved

lemma applyAllRemoteGains (hm : p.store.deafened = true → p.store.selfMuted = true)
    (hs : p.saved = p.store) : p.applyAllRemoteGains.Settled where
  muted := hm
  silent hd id gain hg := by
    obtain ⟨_, -, rfl⟩ := Option.map_eq_some_iff.mp hg
    have hd' : p.store.deafened = true := hd
    simp [Remote.gain, hd']
  saved := hs

lemma handleToggleSelfMute (h : p.Settled) : p.handleToggleSelfMute.Settled := by
  cases hd : p.store.deafened
  · refine ⟨?_, ?_, ?_⟩
    · intro hd'
      simp [Page.handleToggleSelfMute, announce, setSelfMuted, hd] at hd'
    · intro hd'
      simp [Page.handleToggleSelfMute, announce, setSelfMuted, hd] at hd'
    · simp [Page.handleToggleSelfMute, announce, setSelfMuted, hd, h.saved]
  · refine ⟨?_, ?_, ?_⟩
    · intro hd'
      simp [Page.handleToggleSelfMute, announce, setSelfMuted, setDeafened,
        Page.applyAllRemoteGains, hd] at hd'
    · intro hd'
      simp [Page.handleToggleSelfMute, announce, setSelfMuted, setDeafened,
        Page.applyAllRemoteGains, hd] at hd'
    · simp [Page.handleToggleSelfMute, announce, setSelfMuted, setDeafened,
        Page.applyAllRemoteGains, hd, h.saved]

lemma handleToggleDeafen (h : p.Settled) : p.handleToggleDeafen.Settled := by
  unfold Page.handleToggleDeafen
  split
  · refine .applyAllRemoteGains (fun hd => ?_) ?_
    · cases hd
    · simp [announce, setSelfMuted, setDeafened, h.saved]
  · exact .applyAllRemoteGains (fun _ => rfl) rfl

end Page.Settled

/-! ### The connections -/

/-- What the server has been told, by how far the connection is. -/
def Conn.Told (c : Conn) (s : Settings) : Prop :=
  match c.phase with
  | .opening | .greeting => c.told = (false, false)
  | .resuming => c.told = (false, false) ∨ c.told = (s.selfMuted, s.deafened)
  | .up => c.told = (s.selfMuted, s.deafened)

/-- The track that is sent is as the user wants it, or will be by the welcome. -/
def Conn.Tracked (c : Conn) (enabled : ℕ → Bool) (selfMuted : Bool) : Prop :=
  if c.phase.welcomed then enabled c.sender = !selfMuted
  else
    match c.asked with
    | none => c.sender = c.graph
    | some muted => enabled c.sender = !muted

/-- What is waited for on a connection fits how far it is. -/
def Conn.Awaited (c : Conn) : Option Wait → Prop
  | some .connect => c.phase.welcomed = false
  | some (.reconnect ..) => c.phase.welcomed = false ∧ c.asked ≠ none
  | some (.resume ..) => c.phase.welcomed = true
  | _ => True

lemma Conn.up_eq (c : Conn) (s : Settings) :
    c.up s = { c with phase := .up, told := (c.up s).told } := by
  unfold Conn.up Conn.send
  dsimp only
  split
  · split <;> rfl
  · rfl

/-- A new peer is told whatever it is not taken to be. -/
lemma Conn.told_up {c : Conn} {s : Settings} (hws : c.ws = true)
    (ht : c.told = (false, false) ∨ c.told = (s.selfMuted, s.deafened)) :
    (c.up s).told = (s.selfMuted, s.deafened) := by
  unfold Conn.up Conn.send
  cases hm : s.selfMuted <;> cases hd : s.deafened <;> simp_all

lemma Conn.Awaited.congr {c d : Conn} {w : Option Wait} (h : c.Awaited w)
    (hp : d.phase.welcomed = c.phase.welcomed) (ha : c.asked ≠ none → d.asked ≠ none) :
    d.Awaited w := by
  unfold Conn.Awaited at h ⊢
  split
  · exact hp.trans h
  · exact ⟨hp.trans h.1, ha h.2⟩
  · exact hp.trans h
  · trivial

namespace Voice

/-- What holds of the open connection `n`. -/
structure Fits (s : Settings) (v : Voice) (n : ℕ) (c : Conn) : Prop where
  current : ∃ id, v.client = some ⟨id, n⟩
  mic : v.micGraph = some c.sender
  graph : v.swaps c.graph = none ∧ c.graph < v.graphs
  tracked : c.Tracked v.enabled s.selfMuted
  told : c.ws = true → c.Told s
  awaited : c.Awaited (v.waits n)
  next : n < v.next

structure Wired (s : Settings) (v : Voice) : Prop where
  fits : ∀ n c, v.conns n = some c → v.Fits s n c
  peer : ∀ n, v.peerId = some n ↔ ∃ c, v.conns n = some c ∧ c.phase.welcomed = true
  mic : ∀ g, v.micGraph = some g → v.swaps g = none ∧ g < v.graphs
  swap : ∀ k w, v.swaps k = some w → k < v.graphs
  replacing : ∀ k n muted, v.swaps k = some (.replacing n muted) → v.enabled k = !muted
  wait : ∀ n w, v.waits n = some w → n < v.next

/-- The call under way is what the page is joining for. -/
structure Calls (v : Voice) : Prop where
  joining : v.call.isSome ↔ v.joinState = .joining
  idle : v.joinState = .idle → v.micGraph = none
  preparing : v.call = some .preparing → v.micGraph = none

variable {s s' : Settings} {v v' : Voice} {n m k g id : ℕ} {c c' : Conn} {muted : Bool}

namespace Wired

lemma new : Wired s .new where
  fits _ _ h := by cases h
  peer n := by simp [Voice.new]
  mic _ h := by cases h
  swap _ _ h := by cases h
  replacing _ _ _ h := by cases h
  wait _ _ h := by cases h

lemma conns_eq (h : Wired s v) (hc : v.conns n = some c) (hm : v.conns m = some c') : m = n := by
  obtain ⟨_, h₁⟩ := (h.fits n c hc).current
  obtain ⟨_, h₂⟩ := (h.fits m c' hm).current
  rw [h₁] at h₂
  cases h₂
  rfl

lemma conns_none (h : Wired s v) (hmic : v.micGraph = none) (n : ℕ) : v.conns n = none := by
  refine Option.eq_none_iff_forall_ne_some.mpr fun c hc => ?_
  have := (h.fits n c hc).mic
  rw [hmic] at this
  cases this

lemma off (h : Wired s v) (hconns : ∀ n, v'.conns n = none) (hpeer : v'.peerId = none)
    (hmic : ∀ g, v'.micGraph = some g → v.micGraph = some g) (henabled : v'.enabled = v.enabled)
    (hgraphs : v'.graphs = v.graphs) (hswaps : v'.swaps = v.swaps) (hnext : v'.next = v.next)
    (hwaits : ∀ n w, v'.waits n = some w → v.waits n = some w) : Wired s v' where
  fits n c hc := by rw [hconns] at hc; cases hc
  peer n := by simp [hpeer, hconns]
  mic g hg := by rw [hswaps, hgraphs]; exact h.mic g (hmic g hg)
  swap k w hk := by rw [hgraphs]; exact h.swap k w (hswaps ▸ hk)
  replacing k n muted hk := by rw [henabled]; exact h.replacing k n muted (hswaps ▸ hk)
  wait n w hw := by rw [hnext]; exact h.wait n w (hwaits n w hw)

lemma disconnect_conns (h : Wired s v) (hclient : v'.client = v.client)
    (hconns : ∀ n c, v'.conns n = some c → v.conns n = some c) (n : ℕ) :
    v'.disconnect.conns n = none := by
  have hcur {c : Conn} (hc : v'.conns n = some c) : ∃ id, v'.client = some ⟨id, n⟩ := by
    rw [hclient]
    exact (h.fits n c (hconns n c hc)).current
  unfold disconnect
  split
  · next hnone =>
    refine Option.eq_none_iff_forall_ne_some.mpr fun c hc => ?_
    obtain ⟨_, hcl⟩ := hcur hc
    rw [hnone] at hcl
    cases hcl
  · next cl hcl =>
    simp only [closeConn]
    rcases eq_or_ne n cl.conn with rfl | hne
    · simp
    · rw [update_of_ne hne]
      refine Option.eq_none_iff_forall_ne_some.mpr fun c hc => ?_
      obtain ⟨_, hcl'⟩ := hcur hc
      rw [hcl] at hcl'
      cases hcl'
      exact hne rfl

end Wired

lemma disconnect_eq (v : Voice) :
    v.disconnect = { v with conns := v.disconnect.conns, client := none } := by
  unfold disconnect
  split
  · next h => rw [← h]
  · rfl

namespace Wired

lemma drop (h : Wired s v) : Wired s v.drop := by
  have heq := v.disconnect_eq
  refine h.off (h.disconnect_conns rfl fun _ _ h => h) rfl ?_ ?_ ?_ ?_ ?_ ?_
  all_goals
    simp only [Voice.drop]
    rw [heq]
  · exact fun _ h => h
  · exact fun _ _ h => h

lemma leave_of (h : Wired s v) (hclient : v'.client = v.client)
    (hconns : ∀ n c, v'.conns n = some c → v.conns n = some c) (henabled : v'.enabled = v.enabled)
    (hgraphs : v'.graphs = v.graphs) (hswaps : v'.swaps = v.swaps) (hnext : v'.next = v.next)
    (hwaits : v'.waits = v.waits) : Wired s v'.leave := by
  have heq := v'.disconnect_eq
  refine h.off (h.disconnect_conns hclient hconns) rfl (fun g hg => by cases hg) ?_ ?_ ?_ ?_ ?_
  all_goals
    simp only [Voice.leave]
    rw [heq]
  · exact henabled
  · exact hgraphs
  · exact hswaps
  · exact hnext
  · intro n w hw
    rw [← hwaits]
    exact hw

lemma leave (h : Wired s v) : Wired s v.leave :=
  h.leave_of rfl (fun _ _ h => h) rfl rfl rfl rfl rfl

lemma closeConn (h : Wired s v) (hp : ∀ c, v.conns n = some c → c.phase.welcomed = false) :
    Wired s (v.closeConn n) where
  fits m c hm := by
    simp only [Voice.closeConn, update_apply] at hm
    split at hm
    · cases hm
    · exact ⟨(h.fits m c hm).current, (h.fits m c hm).mic, (h.fits m c hm).graph,
        (h.fits m c hm).tracked, (h.fits m c hm).told, (h.fits m c hm).awaited,
        (h.fits m c hm).next⟩
  peer m := by
    refine (h.peer m).trans ⟨?_, ?_⟩
    · rintro ⟨c, hc, hw⟩
      refine ⟨c, ?_, hw⟩
      simp only [Voice.closeConn]
      rw [update_of_ne]
      · exact hc
      · rintro rfl
        rw [hp c hc] at hw
        cases hw
    · rintro ⟨c, hc, hw⟩
      simp only [Voice.closeConn, update_apply] at hc
      split at hc
      · cases hc
      · exact ⟨c, hc, hw⟩
  mic := h.mic
  swap := h.swap
  replacing := h.replacing
  wait := h.wait

lemma setWait (h : Wired s v) {w : Option Wait} (hn : w ≠ none → n < v.next)
    (hw : ∀ c, v.conns n = some c → c.Awaited w) : Wired s (v.setWait n w) where
  fits m c hm := by
    have hf := h.fits m c hm
    refine ⟨hf.current, hf.mic, hf.graph, hf.tracked, hf.told, ?_, hf.next⟩
    simp only [Voice.setWait, update_apply]
    split
    · next heq => exact hw c (heq ▸ hm)
    · exact hf.awaited
  peer := h.peer
  mic := h.mic
  swap := h.swap
  replacing := h.replacing
  wait m w' hw' := by
    simp only [Voice.setWait, update_apply] at hw'
    split at hw'
    · next heq =>
      subst heq
      exact hn (by rw [hw']; exact Option.some_ne_none _)
    · exact h.wait m w' hw'

lemma setup (h : Wired s v) (hconns : ∀ n, v.conns n = none) (hg : v.micGraph = some g)
    {asked : Option Bool} (ha : ∀ muted, asked = some muted → v.enabled g = !muted) :
    Wired s (v.setup id g asked) where
  fits n c hc := by
    simp only [Voice.setup, update_apply] at hc
    split at hc
    · next heq =>
      subst heq
      cases hc
      refine ⟨⟨id, rfl⟩, hg, h.mic g hg, ?_, fun _ => rfl, ?_, Nat.lt_succ_self _⟩
      · cases asked with
        | none => exact rfl
        | some muted => exact ha muted rfl
      · -- the number is new
        cases hw : v.waits v.next with
        | none => simp [Voice.setup, hw, Conn.Awaited]
        | some w => exact absurd (h.wait _ _ hw) (lt_irrefl _)
    · rw [hconns] at hc
      cases hc
  peer n := by
    refine ⟨fun hn => ?_, ?_⟩
    · obtain ⟨c, hc, -⟩ := (h.peer n).mp hn
      rw [hconns] at hc
      cases hc
    · rintro ⟨c, hc, hw⟩
      simp only [Voice.setup, update_apply] at hc
      split at hc
      · cases hc
        cases hw
      · rw [hconns] at hc
        cases hc
  mic := h.mic
  swap := h.swap
  replacing := h.replacing
  wait n w hw := Nat.lt_succ_of_lt (h.wait n w hw)

lemma modifyConn (h : Wired s v) (hc : v.conns n = some c) {f : Conn → Conn}
    (hw : (f c).phase.welcomed = c.phase.welcomed) (hf : v.Fits s n (f c)) :
    Wired s (v.modifyConn n f) where
  fits m d hm := by
    simp only [Voice.modifyConn, update_apply] at hm
    split at hm
    · next heq =>
      subst heq
      rw [hc] at hm
      cases hm
      exact ⟨hf.current, hf.mic, hf.graph, hf.tracked, hf.told, hf.awaited, hf.next⟩
    · next hne => exact absurd (h.conns_eq hc hm) hne
  peer m := by
    refine (h.peer m).trans ⟨?_, ?_⟩
    · rintro ⟨d, hd, hdw⟩
      have heq := h.conns_eq hc hd
      subst heq
      rw [hc] at hd
      cases hd
      exact ⟨f c, by simp [Voice.modifyConn, hc], hw.trans hdw⟩
    · rintro ⟨d, hd, hdw⟩
      simp only [Voice.modifyConn, update_apply] at hd
      split at hd
      · next heq =>
        subst heq
        rw [hc] at hd
        cases hd
        exact ⟨c, hc, hw.symm.trans hdw⟩
      · exact ⟨d, hd, hdw⟩
  mic := h.mic
  swap := h.swap
  replacing := h.replacing
  wait := h.wait

lemma opened (h : Wired s v) (hc : v.conns n = some c) (hp : c.phase = .opening) :
    Wired s (v.modifyConn n ({ · with phase := .greeting })) := by
  have hf := h.fits n c hc
  refine h.modifyConn hc (by rw [hp]; rfl) ⟨hf.current, hf.mic, hf.graph, ?_, ?_, ?_, hf.next⟩
  · have ht := hf.tracked
    unfold Conn.Tracked at ht ⊢
    rw [hp] at ht
    exact ht
  · intro hws
    have ht := hf.told hws
    unfold Conn.Told at ht ⊢
    rw [hp] at ht
    exact ht
  · exact hf.awaited.congr (by rw [hp]; rfl) fun ha => ha

lemma lost (h : Wired s v) (hc : v.conns n = some c) :
    Wired s (v.modifyConn n ({ · with ws := false })) := by
  have hf := h.fits n c hc
  exact h.modifyConn hc rfl ⟨hf.current, hf.mic, hf.graph, hf.tracked, fun hws => (by cases hws),
    hf.awaited, hf.next⟩

end Wired

namespace Wired

lemma call (h : Wired s v) (j : JoinState) (cl : Option Call) :
    Wired s { v with joinState := j, call := cl } where
  fits n c hc :=
    have hf := h.fits n c hc
    ⟨hf.current, hf.mic, hf.graph, hf.tracked, hf.told, hf.awaited, hf.next⟩
  peer := h.peer
  mic := h.mic
  swap := h.swap
  replacing := h.replacing
  wait := h.wait

lemma welcomed (h : Wired s v) (hc : v.conns n = some c) {d : Conn} {enabled : ℕ → Bool}
    (hgraph : d.graph = c.graph) (hsender : d.sender = c.sender) (hd : d.phase.welcomed = true)
    (henabled : ∀ k w, v.swaps k = some w → enabled k = v.enabled k)
    (hsent : enabled c.sender = !s'.selfMuted) (htold : d.ws = true → d.Told s')
    (hawaited : d.Awaited (v.waits n)) :
    Wired s' { v with
      conns := update v.conns n (some d), enabled := enabled, peerId := some n } where
  fits m e hm := by
    simp only [update_apply] at hm
    split at hm
    · next heq =>
      subst heq
      cases hm
      have hf := h.fits m c hc
      refine ⟨hf.current, hsender ▸ hf.mic, hgraph ▸ hf.graph, ?_, htold, hawaited, hf.next⟩
      rw [Conn.Tracked, if_pos hd, hsender]
      exact hsent
    · next hne => exact absurd (h.conns_eq hc hm) hne
  peer m := by
    refine ⟨fun hm => ?_, ?_⟩
    · cases hm
      exact ⟨d, by simp, hd⟩
    · rintro ⟨e, he, hew⟩
      simp only [update_apply] at he
      split at he
      · next heq => rw [heq]
      · next hne => exact absurd (h.conns_eq hc he) hne
  mic := h.mic
  swap := h.swap
  replacing k m muted hk := (henabled k _ hk).trans (h.replacing k m muted hk)
  wait := h.wait

lemma connected (h : Wired s v) (hc : v.conns n = some c) (hp : c.phase = .greeting)
    (hws : c.ws = true) (hasked : ∀ muted, c.asked = some muted → muted = s.selfMuted)
    (hw : v.waits n = none) : Wired s ({ v with peerId := some n }.connected n c.graph s) := by
  have hf := h.fits n c hc
  have hup := c.up_eq s
  have hgraph : (c.up s).graph = c.graph := by rw [hup]
  have hsender : (c.up s).sender = c.sender := by rw [hup]
  have hphase : (c.up s).phase = .up := by rw [hup]
  have heq : { v with peerId := some n }.connected n c.graph s = { v with
      conns := update v.conns n (some (c.up s))
      enabled := update v.enabled c.graph (!s.selfMuted), peerId := some n } := by
    simp [Voice.connected, Voice.modifyConn, hc]
  rw [heq]
  refine h.welcomed hc hgraph hsender (by rw [hphase]; rfl) ?_ ?_ ?_ ?_
  · intro k w hk
    refine update_of_ne ?_ _ _
    rintro rfl
    rw [hf.graph.1] at hk
    cases hk
  · have ht := hf.tracked
    rw [Conn.Tracked, hp, if_neg (by simp [Phase.welcomed])] at ht
    rw [update_apply]
    split
    · rfl
    · next hne =>
      -- the track was swapped while the connection was made
      split at ht
      · exact absurd ht hne
      · next muted hm => rw [ht, hasked muted hm]
  · intro _
    have ht := hf.told hws
    rw [Conn.Told, hp] at ht
    rw [Conn.Told, hphase]
    exact Conn.told_up hws (.inl ht)
  · rw [hw]
    trivial

lemma reconnected (h : Wired s v) (hc : v.conns n = some c) (hp : c.phase = .greeting)
    (hws : c.ws = true) (hasked : ∀ muted, c.asked = some muted → muted = s.selfMuted)
    (hw : v.waits n = some (.reconnect id g)) :
    Wired s (({ v with peerId := some n }.modifyConn n ({ · with phase := .resuming })).setWait n
      (some (.resume id g))) := by
  have hf := h.fits n c hc
  have hn : n < v.next := hf.next
  have ha := hf.awaited
  rw [hw] at ha
  obtain ⟨muted, hm⟩ := Option.ne_none_iff_exists'.mp ha.2
  have ht := hf.tracked
  rw [Conn.Tracked, hp, if_neg (by simp [Phase.welcomed]), hm] at ht
  have htold := hf.told hws
  rw [Conn.Told, hp] at htold
  -- the wait is set last in the code, and first here
  have h' : Wired s (v.setWait n none) :=
    h.setWait (fun hne => absurd rfl hne) fun _ _ => trivial
  have heq : ({ v with peerId := some n }.modifyConn n ({ · with phase := .resuming })).setWait n
      (some (.resume id g)) = { v.setWait n none with
        conns := update v.conns n (some { c with phase := .resuming })
        enabled := v.enabled, peerId := some n }.setWait n (some (.resume id g)) := by
    simp [Voice.modifyConn, Voice.setWait, hc]
  rw [heq]
  refine Wired.setWait (h'.welcomed (d := { c with phase := .resuming }) hc rfl rfl rfl
    (fun _ _ _ => rfl) ?_ ?_ ?_) (fun _ => hn) ?_
  · show v.enabled c.sender = _
    rw [ht, hasked muted hm]
  · exact fun _ => .inl htold
  · simp [Voice.setWait, Conn.Awaited]
  · intro d hd
    simp only [update_self] at hd
    cases hd
    rfl

lemma resumed (h : Wired s v) (hc : v.conns n = some c) (hw : v.waits n = some (.resume id g)) :
    Wired s (v.resumed id n s) := by
  have hf := h.fits n c hc
  have hwel : c.phase.welcomed = true := by
    have ha := hf.awaited
    rw [hw] at ha
    exact ha
  have h' : Wired s (v.setWait n none) :=
    h.setWait (fun hne => absurd rfl hne) fun _ _ => trivial
  have hf' := h'.fits n c hc
  have hup := c.up_eq s
  have hphase : (c.up s).phase = .up := by rw [hup]
  have heq : v.resumed id n s = (v.setWait n none).modifyConn n (·.up s) := by
    have hconns : (v.setWait n none).conns n = some c := hc
    simp [Voice.resumed, hconns]
  rw [heq]
  refine h'.modifyConn hc (by rw [hphase, hwel]; rfl) ⟨hf'.current, ?_, ?_, ?_, ?_, ?_, hf'.next⟩
  · rw [hup]
    exact hf'.mic
  · rw [hup]
    exact hf'.graph
  · have ht := hf'.tracked
    rw [Conn.Tracked, if_pos hwel] at ht
    rw [Conn.Tracked, if_pos (by rw [hphase]; rfl), hup]
    exact ht
  · -- the server is told what has changed meanwhile
    intro hws
    have hws' : c.ws = true := by rw [hup] at hws; exact hws
    have ht := hf.told hws'
    rw [Conn.Told, hphase]
    refine Conn.told_up hws' ?_
    unfold Conn.Told at ht
    split at ht
    · exact .inl ht
    · exact .inl ht
    · exact ht
    · exact .inr ht
  · simp [Voice.setWait, Conn.Awaited]

/-! ### The toggles -/

lemma announce (h : Wired s v) (s' : Settings) :
    Wired s' (v.announce s'.selfMuted s'.deafened) := by
  rcases hpeer : v.peerId with _ | n
  · -- nothing has been welcomed
    have hun : ∀ n c, v.conns n = some c → c.phase.welcomed = false := by
      intro n c hc
      by_contra hw
      have := (h.peer n).mpr ⟨c, hc, by simpa using hw⟩
      rw [hpeer] at this
      cases this
    rw [Voice.announce, hpeer]
    refine ⟨fun n c hc => ?_, h.peer, h.mic, h.swap, h.replacing, h.wait⟩
    have hf := h.fits n c hc
    refine ⟨hf.current, hf.mic, hf.graph, ?_, fun hws => ?_, hf.awaited, hf.next⟩
    · have ht := hf.tracked
      unfold Conn.Tracked at ht ⊢
      rw [hun n c hc] at ht ⊢
      exact ht
    · have ht := hf.told hws
      have hw := hun n c hc
      unfold Conn.Told at ht ⊢
      cases hp : c.phase <;> rw [hp] at ht hw
      · exact ht
      · exact ht
      · cases hw
      · cases hw
  · obtain ⟨c, hc, hw⟩ := (h.peer n).mp hpeer
    have hf := h.fits n c hc
    obtain ⟨id, hclient⟩ := hf.current
    have hopening : c.phase ≠ .opening := by
      intro hp
      rw [hp] at hw
      cases hw
    have hsend : c.send s'.selfMuted s'.deafened =
        { c with told := (c.send s'.selfMuted s'.deafened).told } := by
      unfold Conn.send
      split <;> rfl
    have heq : v.announce s'.selfMuted s'.deafened = { v with
        conns := update v.conns n (some (c.send s'.selfMuted s'.deafened))
        enabled := update v.enabled c.sender (!s'.selfMuted) } := by
      simp [Voice.announce, hpeer, Voice.setMicEnabled, hf.mic, Voice.sendSetState, hclient,
        Voice.modifyConn, hc]
    have hvoice : { v with
        conns := update v.conns n (some (c.send s'.selfMuted s'.deafened))
        enabled := update v.enabled c.sender (!s'.selfMuted) } = { v with
        conns := update v.conns n (some (c.send s'.selfMuted s'.deafened))
        enabled := update v.enabled c.sender (!s'.selfMuted), peerId := some n } := by
      rw [← hpeer]
    rw [heq, hvoice]
    refine h.welcomed hc ?_ ?_ ?_ ?_ ?_ ?_ ?_
    · rw [hsend]
    · rw [hsend]
    · rw [hsend]
      exact hw
    · -- a swap under way has a graph of its own
      intro k w hk
      refine update_of_ne ?_ _ _
      rintro rfl
      rw [(h.mic _ hf.mic).1] at hk
      cases hk
    · simp
    · -- the server is told, as the socket is open
      intro hws
      have hws' : c.ws = true := by rw [hsend] at hws; exact hws
      have htold : (c.send s'.selfMuted s'.deafened).told = (s'.selfMuted, s'.deafened) := by
        simp [Conn.send, hws', hopening]
      have hphase : (c.send s'.selfMuted s'.deafened).phase = c.phase := by rw [hsend]
      unfold Conn.Told
      rw [hphase, htold]
      cases hp : c.phase <;> rw [hp] at hw
      · cases hw
      · cases hw
      · exact .inr rfl
    · have ha := hf.awaited
      rw [hsend]
      exact ha

/-! ### Swapping the microphone -/

lemma switchMic (h : Wired s v) : Wired s (v.switchMic s') := by
  have hne {g : ℕ} (hg : g < v.graphs) :
      update v.swaps v.graphs (some (.building s'.selfMuted)) g = v.swaps g :=
    update_of_ne hg.ne _ _
  refine ⟨fun n c hc => ?_, h.peer, fun g hg => ?_, fun k w hk => ?_, fun k n muted hk => ?_,
    h.wait⟩
  · have hf := h.fits n c hc
    exact ⟨hf.current, hf.mic, ⟨(hne hf.graph.2).trans hf.graph.1, Nat.lt_succ_of_lt hf.graph.2⟩,
      hf.tracked, hf.told, hf.awaited, hf.next⟩
  · obtain ⟨h₁, h₂⟩ := h.mic g hg
    exact ⟨(hne h₂).trans h₁, Nat.lt_succ_of_lt h₂⟩
  · simp only [Voice.switchMic, update_apply] at hk ⊢
    split at hk
    · omega
    · exact Nat.lt_succ_of_lt (h.swap k w hk)
  · simp only [Voice.switchMic, update_apply] at hk
    split at hk
    · cases hk
    · exact h.replacing k n muted hk

lemma swap_ne (h : Wired s v) {w : Swap} (hk : v.swaps k = some w) (hc : v.conns n = some c) :
    c.sender ≠ k ∧ c.graph ≠ k := by
  have hf := h.fits n c hc
  constructor
  · rintro rfl
    rw [(h.mic _ hf.mic).1] at hk
    cases hk
  · rintro rfl
    rw [hf.graph.1] at hk
    cases hk

lemma built (h : Wired s v) (hk : v.swaps k = some (.building muted)) :
    Wired s (v.built k muted) := by
  have hlt := h.swap k _ hk
  -- a connection has nothing to do with the new graph
  have hfits (w : Option Swap) {n : ℕ} {c : Conn} (hc : v.conns n = some c) :
      update v.swaps k w c.graph = none ∧ c.Tracked (update v.enabled k (!muted)) s.selfMuted := by
    have hf := h.fits n c hc
    obtain ⟨hs, hg⟩ := h.swap_ne hk hc
    refine ⟨(update_of_ne hg _ _).trans hf.graph.1, ?_⟩
    have ht := hf.tracked
    unfold Conn.Tracked at ht ⊢
    rw [update_of_ne hs]
    exact ht
  have henabled {k' n' : ℕ} {muted' : Bool} (hne : k' ≠ k)
      (hk' : v.swaps k' = some (.replacing n' muted')) :
      update v.enabled k (!muted) k' = !muted' := by
    rw [update_of_ne hne]
    exact h.replacing k' n' muted' hk'
  unfold Voice.built
  dsimp only
  split
  · next n hn =>
    refine ⟨fun m c hc => ?_, h.peer, fun g hg => ?_, fun k' w hk' => ?_,
      fun k' n' muted' hk' => ?_, h.wait⟩
    · -- what is open goes on with its own graph
      have hf := h.fits m c hc
      obtain ⟨h₁, h₂⟩ := hfits (some (.replacing n muted)) hc
      exact ⟨hf.current, hf.mic, ⟨h₁, hf.graph.2⟩, h₂, hf.told, hf.awaited, hf.next⟩
    · -- the page's graph is another one
      obtain ⟨h₁, h₂⟩ := h.mic g hg
      refine ⟨(update_of_ne ?_ _ _).trans h₁, h₂⟩
      rintro rfl
      rw [h₁] at hk
      cases hk
    · simp only [update_apply] at hk'
      split at hk'
      · next heq => rw [heq]; exact hlt
      · exact h.swap k' w hk'
    · simp only [update_apply] at hk'
      split at hk'
      · next heq =>
        cases hk'
        rw [heq]
        exact update_self ..
      · next hne => exact henabled hne hk'
  · next hn =>
    -- no connection is open
    have hnone : ∀ m c, v.conns m ≠ some c := by
      intro m c hc
      obtain ⟨id, hcl⟩ := (h.fits m c hc).current
      simp [conn?, hcl, hc] at hn
    refine ⟨fun m c hc => absurd hc (hnone m c), h.peer, fun g hg => ?_, fun k' w hk' => ?_,
      fun k' n' muted' hk' => ?_, h.wait⟩
    · cases hg
      exact ⟨update_self .., hlt⟩
    · simp only [update_apply] at hk'
      split at hk'
      · cases hk'
      · exact h.swap k' w hk'
    · simp only [update_apply] at hk'
      split at hk'
      · cases hk'
      · next hne => exact henabled hne hk'

lemma swapFailed (h : Wired s v) : Wired s { v with swaps := update v.swaps k none } := by
  have hle {g : ℕ} {w : Swap} (hg : update v.swaps k none g = some w) : v.swaps g = some w := by
    rw [update_apply] at hg
    split at hg
    · cases hg
    · exact hg
  have hnone {g : ℕ} (hg : v.swaps g = none) : update v.swaps k none g = none := by
    rw [update_apply, hg, ite_self]
  refine ⟨fun n c hc => ?_, h.peer, fun g hg => ⟨hnone (h.mic g hg).1, (h.mic g hg).2⟩,
    fun k' w hk' => h.swap k' w (hle hk'), fun k' n muted hk' => h.replacing k' n muted (hle hk'),
    h.wait⟩
  have hf := h.fits n c hc
  exact ⟨hf.current, hf.mic, ⟨hnone hf.graph.1, hf.graph.2⟩, hf.tracked, hf.told, hf.awaited,
    hf.next⟩

lemma replaced (h : Wired s v) (hk : v.swaps k = some (.replacing n muted))
    (hc : v.conns n = some c) (hm : c.phase.welcomed = true → muted = s.selfMuted) :
    Wired s (v.replaced k n muted) := by
  have henabled := h.replacing k n muted hk
  have hlt := h.swap k _ hk
  have h' := h.swapFailed (k := k)
  have hf := h'.fits n c hc
  refine ⟨fun m d hd => ?_, ?_, fun g hg => ?_, h'.swap, h'.replacing, h'.wait⟩
  · simp only [Voice.replaced, Voice.modifyConn, update_apply] at hd
    split at hd
    · next heq =>
      subst heq
      rw [hc] at hd
      cases hd
      refine ⟨hf.current, rfl, hf.graph, ?_, fun hws => ?_, ?_, hf.next⟩
      · -- the new track is off exactly if the user is muted
        unfold Conn.Tracked
        dsimp only
        split
        · next hw => rw [← hm hw]; exact henabled
        · exact henabled
      · exact hf.told hws
      · refine hf.awaited.congr rfl fun ha => ?_
        dsimp only
        split
        · exact ha
        · exact Option.some_ne_none _
    · next hne => exact absurd (h.conns_eq hc hd) hne
  · -- the same connection is the page's peer
    intro m
    refine (h.peer m).trans ⟨?_, ?_⟩
    · rintro ⟨d, hd, hw⟩
      have heq := h.conns_eq hc hd
      subst heq
      rw [hc] at hd
      cases hd
      refine ⟨{ c with
        sender := k, asked := if c.phase.welcomed then c.asked else some muted }, ?_, hw⟩
      simp [Voice.replaced, Voice.modifyConn, hc]
    · rintro ⟨d, hd, hw⟩
      simp only [Voice.replaced, Voice.modifyConn, update_apply] at hd
      split at hd
      · next heq =>
        subst heq
        rw [hc] at hd
        cases hd
        exact ⟨c, hc, hw⟩
      · exact ⟨d, hd, hw⟩
  · cases hg
    exact ⟨update_self .., hlt⟩

end Wired

/-! ### New connections -/

lemma drop_eq (v : Voice) :
    v.drop = { v with conns := v.disconnect.conns, client := none, peerId := none } := by
  unfold drop
  rw [disconnect_eq]

namespace Wired

lemma connectSfu (h : Wired s v) (hg : v.micGraph = some g) :
    Wired s (v.drop.connectSfu g) := by
  have hmic : v.drop.micGraph = some g := by rw [drop_eq]; exact hg
  exact h.drop.setup (h.disconnect_conns rfl fun _ _ h => h) hmic fun muted hm => by cases hm

lemma coldReconnect (h : Wired s v) (hg : v.micGraph = some g) : Wired s (v.coldReconnect g) := by
  have hnext : v.drop.next = v.next := by rw [drop_eq]
  refine (h.connectSfu hg).setWait (fun _ => hnext ▸ Nat.lt_succ_self _) fun c hc => ?_
  simp only [Voice.connectSfu, Voice.setup, hnext, update_self] at hc
  cases hc
  rfl

lemma reconnect (h : Wired s v) (hclient : v.client = some ⟨id, n⟩) (hg : v.micGraph = some g)
    {asked : Option Bool} (hne : asked ≠ none)
    (ha : ∀ muted, asked = some muted → v.enabled g = !muted) :
    Wired s (v.reconnect id n g asked) := by
  have hconns : ∀ m, update v.conns n none m = none := by
    intro m
    rw [update_apply]
    split
    · rfl
    · next hm =>
      refine Option.eq_none_iff_forall_ne_some.mpr fun c hc => hm ?_
      obtain ⟨_, hcl⟩ := (h.fits m c hc).current
      rw [hclient] at hcl
      cases hcl
      rfl
  have hoff : Wired s { v.closeConn n with peerId := none } :=
    h.off hconns rfl (fun _ h => h) rfl rfl rfl rfl fun _ _ h => h
  refine (hoff.setup hconns hg ha).setWait (fun _ => Nat.lt_succ_self _) fun c hc => ?_
  simp only [Voice.setup, Voice.closeConn, update_self] at hc
  cases hc
  exact ⟨rfl, hne⟩

lemma attempt (h : Wired s v) (hg : v.micGraph = some g) {sharing : Bool}
    (hv : v.attempt sharing g s = some v') : Wired s v' := by
  unfold Voice.attempt at hv
  split at hv
  · split at hv
    · cases hv
    · next id n hclient =>
      split at hv
      · cases hv
      · next c hc =>
        have hf := h.fits n c hc
        have hsender : c.sender = g := Option.some.inj (hf.mic.symm.trans hg)
        have ht := hf.tracked
        rw [Conn.Tracked, hsender] at ht
        split at hv
        · next hw =>
          -- it was welcomed, so that its track is as the user has it
          cases hv
          rw [if_pos hw] at ht
          refine h.reconnect hclient hg (Option.some_ne_none _) fun muted hm => ?_
          cases hm
          exact ht
        · next hw =>
          rw [if_neg hw] at ht
          split at hv
          · next hwait =>
            -- its own reconnect still waits, with the track as it was asked for
            cases hv
            have hne : c.asked ≠ none := by
              have ha := hf.awaited
              rw [hwait] at ha
              exact ha.2
            refine h.reconnect hclient hg hne fun muted hm => ?_
            rw [hm] at ht
            exact ht
          · cases hv
  · -- nothing is shared, and all is set up anew
    cases hv
    exact h.coldReconnect hg

lemma prepared (h : Wired s v) (hmic : v.micGraph = none) : Wired s v.prepared := by
  have hnone := h.conns_none hmic
  have hne {k : ℕ} {w : Swap} (hk : v.swaps k = some w) : k ≠ v.graphs :=
    (h.swap k w hk).ne
  have h' : Wired s { v with
      micGraph := some v.graphs
      enabled := update v.enabled v.graphs true
      graphs := v.graphs + 1 } := by
    refine ⟨fun n c hc => ?_, h.peer, fun g hg => ?_, fun k w hk => Nat.lt_succ_of_lt
      (h.swap k w hk), fun k n muted hk => ?_, h.wait⟩
    · rw [show v.conns n = none from hnone n] at hc
      cases hc
    · cases hg
      refine ⟨Option.eq_none_iff_forall_ne_some.mpr fun w hw => hne hw rfl, Nat.lt_succ_self _⟩
    · exact (update_of_ne (hne hk) _ _).trans (h.replacing k n muted hk)
  exact (h'.setup hnone rfl fun muted hm => by cases hm).call _ _

lemma rotate (h : Wired s v) (hg : v.micGraph = some g) :
    Wired s (v.rotateRoomKeepingMic g) :=
  (h.connectSfu hg).call _ _

lemma welcome (h : Wired s v) (hc : v.conns n = some c) (hp : c.phase = .greeting)
    (hws : c.ws = true) (hasked : ∀ muted, c.asked = some muted → muted = s.selfMuted)
    (hv : v.welcome n c s = some v') : Wired s v' := by
  unfold Voice.welcome at hv
  dsimp only at hv
  split at hv
  · next hw =>
    cases hv
    -- the wait ends last in the code, and first here
    have h' : Wired s (v.setWait n none) :=
      h.setWait (fun hne => absurd rfl hne) fun _ _ => trivial
    exact h'.connected hc hp hws hasked (update_self ..)
  · next hw =>
    cases hv
    exact h.reconnected hc hp hws hasked hw
  · cases hv
  · next hw =>
    obtain ⟨-, hv⟩ := Option.ite_none_right_eq_some.mp hv
    cases hv
    exact (h.connected hc hp hws hasked hw).call _ _

end Wired

/-! ### The call under way -/

namespace Calls

lemma new : Calls .new := ⟨by simp [Voice.new], fun _ => rfl, fun _ => rfl⟩

lemma congr (h : Calls v) (hcall : v'.call = v.call) (hjoin : v'.joinState = v.joinState)
    (hmic : v.micGraph = none → v'.micGraph = none) : Calls v' where
  joining := by rw [hcall, hjoin]; exact h.joining
  idle hi := hmic (h.idle (hjoin ▸ hi))
  preparing hp := hmic (h.preparing (hcall ▸ hp))

lemma leave (hcall : v.call = none) : Calls v.leave := by
  have hcall' : v.leave.call = none := by
    unfold Voice.leave
    rw [disconnect_eq]
    exact hcall
  refine ⟨?_, fun _ => rfl, fun _ => rfl⟩
  rw [hcall']
  simp [Voice.leave]

lemma connecting (hcall : v.call = some (.connecting n)) (hjoin : v.joinState = .joining) :
    Calls v := by
  refine ⟨?_, fun hi => ?_, fun hp => ?_⟩
  · rw [hcall, hjoin]
    exact ⟨fun _ => rfl, fun _ => rfl⟩
  · rw [hjoin] at hi
    cases hi
  · rw [hcall] at hp
    cases hp

lemma mic (h : Calls v) (hmic : v.micGraph ≠ none) {g : ℕ} : Calls { v with micGraph := some g } where
  joining := h.joining
  idle hi := absurd (h.idle hi) hmic
  preparing hp := absurd (h.preparing hp) hmic

lemma announce (h : Calls v) (muted deafened : Bool) : Calls (v.announce muted deafened) := by
  unfold Voice.announce Voice.setMicEnabled Voice.sendSetState
  split
  · split <;> split <;> exact h.congr rfl rfl fun hn => hn
  · exact h

lemma coldReconnect (h : Calls v) : Calls (v.coldReconnect g) := by
  refine h.congr ?_ ?_ fun hn => ?_
  · simp only [Voice.coldReconnect, Voice.connectSfu, Voice.setup, Voice.setWait, drop_eq]
  · simp only [Voice.coldReconnect, Voice.connectSfu, Voice.setup, Voice.setWait, drop_eq]
  · simp only [Voice.coldReconnect, Voice.connectSfu, Voice.setup, Voice.setWait, drop_eq, hn]

lemma attempt (h : Calls v) {sharing : Bool} (hv : v.attempt sharing g s = some v') :
    Calls v' := by
  unfold Voice.attempt at hv
  split at hv
  · split at hv
    · cases hv
    · split at hv
      · cases hv
      · split at hv
        · cases hv
          exact h.congr rfl rfl fun hn => hn
        · split at hv
          · cases hv
            exact h.congr rfl rfl fun hn => hn
          · cases hv
  · cases hv
    exact h.coldReconnect

lemma welcome (h : Calls v) (hv : v.welcome n c s = some v') : Calls v' := by
  unfold Voice.welcome at hv
  dsimp only at hv
  split at hv
  · cases hv
    exact h.congr rfl rfl fun hn => hn
  · cases hv
    exact h.congr rfl rfl fun hn => hn
  · cases hv
  · obtain ⟨-, hv⟩ := Option.ite_none_right_eq_some.mp hv
    cases hv
    exact ⟨by simp, fun hi => (by cases hi), fun hp => (by cases hp)⟩

lemma built (h : Calls v) (hmic : v.conn? = none → v.micGraph ≠ none) {muted : Bool} :
    Calls (v.built k muted) := by
  unfold Voice.built
  dsimp only
  split
  · exact h.congr rfl rfl fun hn => hn
  · next hn => exact (h.mic (hmic hn)).congr rfl rfl fun hn => hn

end Calls

end Voice

/-! ### Every step -/

/-- What holds in every clean run. -/
structure Page.Sound (p : Page) : Prop where
  settled : p.Settled
  wired : Voice.Wired p.store p.voice
  calls : Voice.Calls p.voice

namespace Page.Sound

variable {p q : Page} {n k g id : ℕ} {c : Conn}

lemma load {s : Settings} (hs : s.deafened = true → s.selfMuted = true) : (load s).Sound :=
  ⟨.load hs, .new, .new⟩

lemma obeyed (h : p.Sound) : Obeyed p where
  muted := h.settled.muted
  silent := h.settled.silent
  saved := h.settled.saved
  sent n c hc hw := by
    have ht := (h.wired.fits n c hc).tracked
    rw [Conn.Tracked, if_pos hw] at ht
    exact ht
  told n c hc hp hws := by
    have ht := (h.wired.fits n c hc).told hws
    rw [Conn.Told, hp] at ht
    exact ht

lemma voice (h : p.Sound) {r : Remote} {v : Voice}
    (hr : ∀ id gain, r.audio id = some gain → p.remote.audio id = some gain)
    (hw : Voice.Wired p.store v) (hc : Voice.Calls v) :
    { p with remote := r, voice := v }.Sound :=
  ⟨h.settled.congr rfl rfl hr, hw, hc⟩

lemma voice' (h : p.Sound) {v : Voice} (hw : Voice.Wired p.store v) (hc : Voice.Calls v) :
    { p with voice := v }.Sound :=
  h.voice (fun _ _ h => h) hw hc

lemma clear (p : Page) (id gain : ℕ) (h : p.remote.clear.audio id = some gain) :
    p.remote.audio id = some gain := by
  cases h

lemma remote (h : p.Sound) {r : Remote} (hs : { p with remote := r }.Settled) :
    { p with remote := r }.Sound :=
  ⟨hs, h.wired, h.calls⟩

lemma applyAllRemoteGains (h : p.Sound) {r : Remote} :
    { p with remote := r }.applyAllRemoteGains.Sound :=
  ⟨.applyAllRemoteGains h.settled.muted h.settled.saved, h.wired, h.calls⟩

/-! #### The settings -/

lemma handleToggleSelfMute (h : p.Sound) : p.handleToggleSelfMute.Sound := by
  have hw := h.wired.announce ⟨!p.store.selfMuted, false, p.store.preDeafenSelfMuted⟩
  have hcalls := h.calls.announce (!p.store.selfMuted) false
  refine ⟨h.settled.handleToggleSelfMute, ?_, ?_⟩
  · cases hd : p.store.deafened
    · simpa [Page.handleToggleSelfMute, announce, setSelfMuted, hd] using hd ▸ hw
    · simpa [Page.handleToggleSelfMute, announce, setSelfMuted, setDeafened,
        Page.applyAllRemoteGains, hd] using hw
  · cases hd : p.store.deafened
    · simpa [Page.handleToggleSelfMute, announce, setSelfMuted, hd] using hcalls
    · simpa [Page.handleToggleSelfMute, announce, setSelfMuted, setDeafened,
        Page.applyAllRemoteGains, hd] using hcalls

lemma handleToggleDeafen (h : p.Sound) : p.handleToggleDeafen.Sound := by
  refine ⟨h.settled.handleToggleDeafen, ?_, ?_⟩
  · unfold Page.handleToggleDeafen
    split
    · exact h.wired.announce ⟨p.store.preDeafenSelfMuted, false, p.store.preDeafenSelfMuted⟩
    · exact h.wired.announce ⟨true, true, p.store.selfMuted⟩
  · unfold Page.handleToggleDeafen
    split
    · exact h.calls.announce _ _
    · exact h.calls.announce _ _

/-! #### The calls -/

lemma handleLeave (h : p.Sound) (hcall : p.voice.call = none) : p.handleLeave.Sound :=
  h.voice (clear p) h.wired.leave (.leave hcall)

lemma prepared (h : p.Sound) (hcall : p.voice.call = some .preparing) :
    { p with voice := p.voice.prepared }.Sound := by
  refine h.voice' (h.wired.prepared (h.calls.preparing hcall)) (.connecting rfl ?_)
  exact h.calls.joining.mp (by rw [hcall]; rfl)

lemma switchRoom (h : p.Sound) : p.switchRoom.Sound := by
  unfold Page.switchRoom
  split
  · next mic hmic =>
    exact h.voice (clear p) (h.wired.rotate hmic) (.connecting rfl rfl)
  · refine h.voice (clear p) (h.wired.leave.call _ _) ⟨?_, ?_, fun _ => rfl⟩
    · simp
    · intro hi
      cases hi

lemma attempt (h : p.Sound) {sharing : Bool} (hq : p.attempt sharing = some q) : q.Sound := by
  unfold Page.attempt at hq
  split at hq
  · cases hq
    exact h
  · next g hg =>
    obtain ⟨v, hv, rfl⟩ := Option.map_eq_some_iff.mp hq
    exact h.voice (clear p) (h.wired.attempt hg hv) (h.calls.attempt hv)

lemma refused (h : p.Sound) (hclean : clean p (.refused n) = true) (hq : p.refused n = some q) :
    q.Sound := by
  have hcalls : Voice.Calls ((p.voice.closeConn n).setWait n none) :=
    h.calls.congr rfl rfl fun hn => hn
  -- what waits for its welcome is not the page's peer
  have hclosed (hp : ∀ c, p.voice.conns n = some c → c.phase.welcomed = false) :
      Voice.Wired p.store ((p.voice.closeConn n).setWait n none) :=
    (h.wired.closeConn hp).setWait (fun hne => absurd rfl hne) fun _ _ => trivial
  unfold Page.refused at hq
  dsimp only at hq
  split at hq
  · cases hq
    refine h.voice (clear p) (h.wired.leave_of rfl (fun m c hc => ?_) rfl rfl rfl rfl rfl)
      (.leave rfl)
    simp only [Voice.closeConn, update_apply] at hc
    split at hc
    · cases hc
    · exact hc
  · split at hq
    · next hw =>
      cases hq
      refine h.voice' (hclosed fun c hc => ?_) hcalls
      have ha := (h.wired.fits n c hc).awaited
      rw [show p.voice.waits n = _ from hw] at ha
      exact ha
    · next id graph hw =>
      cases hq
      have hw' : p.voice.waits n = some (.reconnect id graph) := hw
      have hg : p.voice.micGraph = some graph := by simpa [clean, hw'] using hclean
      refine h.voice (clear p) ((hclosed fun c hc => ?_).coldReconnect hg) hcalls.coldReconnect
      have ha := (h.wired.fits n c hc).awaited
      rw [hw'] at ha
      exact ha.1
    · cases hq

lemma step (h : p.Sound) {e : Event} (hclean : clean p e = true) (hq : p.step e = some q) :
    q.Sound := by
  cases e with
  | reload =>
    cases hq
    -- the settings are read back as they were saved
    refine .load ?_
    rw [h.settled.saved]
    exact h.settled.muted
  | toggleSelfMute => cases hq; exact h.handleToggleSelfMute
  | triggerToggleSelfMute now =>
    cases hq
    unfold triggerToggleSelfMute
    split
    · -- a second shortcut within the cooldown
      exact h
    · exact handleToggleSelfMute ⟨h.settled.congr rfl rfl fun _ _ h => h, h.wired, h.calls⟩
  | toggleDeafen => cases hq; exact h.handleToggleDeafen
  | join =>
    obtain ⟨hj, hq⟩ := Option.ite_none_right_eq_some.mp hq
    cases hq
    refine h.voice' (h.wired.call _ _) ⟨?_, fun hi => ?_, fun _ => h.calls.idle hj⟩
    · simp
    · cases hi
  | prepared =>
    obtain ⟨hcall, hq⟩ := Option.ite_none_right_eq_some.mp hq
    cases hq
    exact h.prepared hcall
  | unprepared =>
    obtain ⟨hcall, hq⟩ := Option.ite_none_right_eq_some.mp hq
    cases hq
    exact h.voice (clear p) (h.wired.call p.voice.joinState none).leave (.leave rfl)
  | opened n =>
    simp only [Page.step] at hq
    split at hq
    · cases hq
    · next c hc =>
      obtain ⟨⟨-, hp⟩, hq⟩ := Option.ite_none_right_eq_some.mp hq
      cases hq
      exact h.voice' (h.wired.opened hc hp) (h.calls.congr rfl rfl fun hn => hn)
  | welcome n =>
    simp only [Page.step] at hq
    split at hq
    · cases hq
    · next c hc =>
      obtain ⟨⟨hws, hp⟩, hq⟩ := Option.ite_none_right_eq_some.mp hq
      obtain ⟨v, hv, rfl⟩ := Option.map_eq_some_iff.mp hq
      -- the track is on or off as the user has it by now
      have hasked : ∀ muted, c.asked = some muted → muted = p.store.selfMuted := by
        intro muted hm
        simpa [clean, hc, hm] using hclean
      exact h.voice (fun _ _ h => h) (h.wired.welcome hc hp hws hasked hv) (h.calls.welcome hv)
  | refused n => exact h.refused hclean hq
  | lost n =>
    obtain ⟨hc, hq⟩ := Option.ite_none_right_eq_some.mp hq
    obtain ⟨c, hc⟩ := Option.isSome_iff_exists.mp hc
    cases hq
    exact h.voice' (h.wired.lost hc) (h.calls.congr rfl rfl fun hn => hn)
  | attempt sharing => exact h.attempt hq
  | resumed n =>
    obtain ⟨c, hc⟩ := Option.isSome_iff_exists.mp hclean
    simp only [Page.step] at hq
    split at hq
    · next id _ hw =>
      cases hq
      refine h.voice' (h.wired.resumed hc hw) ?_
      -- the connection has not been closed meanwhile
      have heq : p.voice.resumed id n p.store =
          (p.voice.setWait n none).modifyConn n (·.up p.store) := by
        have hconns : (p.voice.setWait n none).conns n = some c := hc
        simp [Voice.resumed, hconns]
      rw [heq]
      exact h.calls.congr rfl rfl fun hn => hn
    · cases hq
  | unresumed n =>
    simp only [Page.step] at hq
    split at hq
    · next graph hw =>
      cases hq
      have hg : p.voice.micGraph = some graph := by simpa [clean, hw] using hclean
      have hwait : Voice.Wired p.store (p.voice.setWait n none) :=
        h.wired.setWait (fun hne => absurd rfl hne) fun _ _ => trivial
      have hcalls : Voice.Calls (p.voice.setWait n none) := h.calls.congr rfl rfl fun hn => hn
      exact h.voice (clear p) (hwait.coldReconnect hg) hcalls.coldReconnect
    · cases hq
  | leave =>
    obtain ⟨hj, hq⟩ := Option.ite_none_right_eq_some.mp hq
    cases hq
    -- no attempt is under way but while the page is joining
    refine h.handleLeave (Option.not_isSome_iff_eq_none.mp fun hs => ?_)
    rw [h.calls.joining.mp hs] at hj
    cases hj
  | switchRoom =>
    obtain ⟨-, hq⟩ := Option.ite_none_right_eq_some.mp hq
    cases hq
    exact h.switchRoom
  | switchMic =>
    obtain ⟨-, hq⟩ := Option.ite_none_right_eq_some.mp hq
    cases hq
    exact h.voice' h.wired.switchMic (h.calls.congr rfl rfl fun hn => hn)
  | built k =>
    simp only [Page.step] at hq
    split at hq
    · next muted hk =>
      cases hq
      refine h.voice' (h.wired.built hk) (h.calls.built fun hn hmic => ?_)
      simp [clean, hn, hmic] at hclean
    · cases hq
  | replaced k =>
    simp only [Page.step] at hq
    split at hq
    · next n muted hk =>
      obtain ⟨hc, hq⟩ := Option.ite_none_right_eq_some.mp hq
      obtain ⟨c, hc⟩ := Option.isSome_iff_exists.mp hc
      cases hq
      refine h.voice' (h.wired.replaced hk hc fun hw => ?_) ?_
      · -- the swap found the mute state that holds now
        simpa [clean, hk, hc, hw] using hclean
      · refine (h.calls.mic ?_).congr rfl rfl fun hn => hn
        rw [(h.wired.fits n c hc).mic]
        exact Option.some_ne_none _
    · cases hq
  | swapFailed k =>
    obtain ⟨-, hq⟩ := Option.ite_none_right_eq_some.mp hq
    cases hq
    exact h.voice' h.wired.swapFailed (h.calls.congr rfl rfl fun hn => hn)
  | attach id => cases hq; exact h.applyAllRemoteGains
  | detach id =>
    cases hq
    refine h.remote (h.settled.congr rfl rfl fun j gain hg => ?_)
    simp only [Remote.detach, update_apply] at hg
    split at hg
    · cases hg
    · exact hg
  | upsert id stored => cases hq; exact h.remote (h.settled.congr rfl rfl fun _ _ h => h)
  | remove id => cases hq; exact h.remote (h.settled.congr rfl rfl fun _ _ h => h)
  | localMute id => cases hq; exact h.applyAllRemoteGains
  | localVolume id volume => cases hq; exact h.applyAllRemoteGains
  | outputVolume volume => cases hq; exact h.applyAllRemoteGains

end Page.Sound

/-- **The mute buttons are obeyed.** Over joins, room switches, lost connections, resumed shares and
swaps of the microphone, in a clean run: whenever the server can hear the page, the track it is
sent is off just if the user is muted; once a connection is up its server has been told so; a
deafened user is muted and hears nobody; and a reload finds all of it as it was. -/
theorem muted_unheard {p : Page} (h : Reach Page.step (fun p e => clean p e = true) Page.new p) :
    Obeyed p :=
  (h.invariant (I := Page.Sound) (.load fun hd => by cases hd) fun _ _ _ hp hc hs =>
    hp.step hc hs).obeyed

/-- Deafened and back, muted, the microphone swapped, and the connection lost under a share. -/
def swapping : List Event :=
  [.join, .prepared, .opened 0, .welcome 0, .attach 7, .toggleDeafen, .toggleDeafen,
    .triggerToggleSelfMute 100, .triggerToggleSelfMute 130, .switchMic, .built 1, .replaced 1,
    .lost 0, .attempt true, .opened 1, .welcome 1, .toggleDeafen, .resumed 1]

theorem muted_unheard_swapping :
    ((run Page.step .new swapping).getD .new).store = ⟨true, true, true⟩ ∧
      Obeyed ((run Page.step .new swapping).getD .new) :=
  ⟨by decide, muted_unheard (.of_isSome (by decide) (by decide))⟩

/-- Not so where the user mutes while the microphone is swapped. -/
example : (run Page.step .new [.join, .prepared, .opened 0, .welcome 0, .switchMic, .built 1,
    .toggleSelfMute, .replaced 1]).map (fun p => (p.store.selfMuted, p.voice.enabled 1))
    = some (true, true) := by
  decide

end VoiceHub.Client.Session
