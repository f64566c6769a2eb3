import Mathlib

/-!
How the text of a chat message is shown: its URLs as links, the rest as it is.

Texts are lists of UTF-16 code units. No text is lost, whatever is trimmed off a URL. A link
that begins with the scheme is itself; one that begins with `www.` in lower case is given a
scheme, and in any other case it is not.
-/

namespace VoiceHub.Client.ChatText

/-- A string of UTF-16 code units. -/
abbrev Text := List UInt16

/-! ### `URL_RE` -/

/-- `https://` -/
def HTTPS : Text := [0x68, 0x74, 0x74, 0x70, 0x73, 0x3a, 0x2f, 0x2f]
/-- `http://` -/
def HTTP : Text := [0x68, 0x74, 0x74, 0x70, 0x3a, 0x2f, 0x2f]
/-- `www.` -/
def WWW : Text := [0x77, 0x77, 0x77, 0x2e]

/-- `\s` -/
def isSpace (c : UInt16) : Bool :=
  (9 ≤ c && c ≤ 13) || (0x2000 ≤ c && c ≤ 0x200a) ||
    [0x20, 0xa0, 0x1680, 0x2028, 0x2029, 0x202f, 0x205f, 0x3000, 0xfeff].contains c

/-- `[^\s<>"']` -/
def isUrlChar (c : UInt16) : Bool := !(isSpace c || [0x3c, 0x3e, 0x22, 0x27].contains c)

/-- `\w` -/
def isWordChar (c : UInt16) : Bool :=
  (0x30 ≤ c && c ≤ 0x39) || (0x41 ≤ c && c ≤ 0x5a) || c == 0x5f || (0x61 ≤ c && c ≤ 0x7a)

/-- `\b` at a place in a text. -/
def boundary (text : Text) (i : ℕ) : Bool :=
  (0 < i && (text[i - 1]?).any isWordChar) != (text[i]?).any isWordChar

/-- ASCII letters in lower case: what the flag `i` makes of the letters of the pattern. -/
def lower (c : UInt16) : UInt16 := if 0x41 ≤ c ∧ c ≤ 0x5a then c + 0x20 else c

/-- The text begins with this, which is in lower case, in any case. -/
def StartsWithI (lit s : Text) : Prop := (s.take lit.length).map lower = lit

instance (lit s : Text) : Decidable (StartsWithI lit s) := inferInstanceAs (Decidable (_ = _))

/-- `https?:\/\/|www\.`, how much of a text it matches. -/
def headLen (s : Text) : Option ℕ :=
  if StartsWithI HTTPS s then some HTTPS.length
  else if StartsWithI HTTP s then some HTTP.length
  else if StartsWithI WWW s then some WWW.length
  else none

/-- How much the whole expression matches from `i` on. -/
def matchAt (text : Text) (i : ℕ) : Option ℕ :=
  if boundary text i then
    (headLen (text.drop i)).bind fun n =>
      let run := ((text.drop i).drop n).takeWhile isUrlChar
      if run = [] then none else some (n + run.length)
  else none

/-- `text.matchAll(URL_RE)` from `i` on: where each match starts, and the match. -/
def matchAll (text : Text) (i : ℕ) : List (ℕ × Text) :=
  if i < text.length then
    match matchAt text i with
    | some n => (i, (text.drop i).take n) :: matchAll text (i + max n 1)
    | none => matchAll text (i + 1)
  else []
termination_by text.length - i

/-! ### `trimUrl` -/

/-- `[.,;:!?]` -/
def isPunct (c : UInt16) : Bool := [0x2e, 0x2c, 0x3b, 0x3a, 0x21, 0x3f].contains c

/-- `pairs[last]` -/
def pairs (c : UInt16) : Option UInt16 :=
  if c = 0x29 then some 0x28 else if c = 0x5d then some 0x5b else if c = 0x7d then some 0x7b
  else none

/-- The loop: a last closer that nothing opens goes. -/
def trimClosers (s : Text) : Text :=
  match _hlast : s.getLast? with
  | none => s
  | some last =>
    match pairs last with
    | none => s
    | some opener => if s.count last ≤ s.count opener then s else trimClosers s.dropLast
termination_by s.length
decreasing_by
  have hne : s ≠ [] := by
    rintro rfl
    cases _hlast
  rw [List.length_dropLast]
  have hpos := List.length_pos_iff.mpr hne
  omega

def trimUrl (raw : Text) : Text := trimClosers (raw.rdropWhile isPunct)

/-! ### `renderText` -/

inductive Part
  | text (s : Text)
  | link (raw href : Text)
  deriving DecidableEq

/-- What a reader sees. -/
def Part.visible : Part → Text
  | .text s => s
  | .link raw _ => raw

/-- `raw.startsWith('www.')` tells letters by case. -/
def href (raw : Text) : Text := if WWW.isPrefixOf raw then HTTPS ++ raw else raw

/-- The loop over the matches, with what was shown up to `last`. -/
def renderMatches (text : Text) (last : ℕ) : List (ℕ × Text) → List Part
  | [] => if last < text.length then [.text (text.drop last)] else []
  | (start, m) :: ms =>
    let raw := trimUrl m
    if raw = [] then renderMatches text last ms
    else
      (if last < start then [.text ((text.take start).drop last)] else []) ++
        .link raw (href raw) :: renderMatches text (start + raw.length) ms

def renderText (text : Text) : List Part := renderMatches text 0 (matchAll text 0)

/-! ### What trimming keeps -/

variable {s t text raw m : Text} {c : UInt16} {i last n : ℕ}

lemma trimClosers_isPrefix (s : Text) : trimClosers s <+: s := by
  fun_induction trimClosers s with
  | case1 s h => exact List.prefix_rfl
  | case2 s last h hp => exact List.prefix_rfl
  | case3 s last h opener hp hle => exact List.prefix_rfl
  | case4 s last h opener hp hle ih => exact ih.trans (List.dropLast_prefix s)

lemma trimClosers_keeps (hc : pairs c = none) (h : t ++ [c] <+: s) : t ++ [c] <+: trimClosers s := by
  fun_induction trimClosers s with
  | case1 s hlast => exact h
  | case2 s last hlast hp => exact h
  | case3 s last hlast opener hp hle => exact h
  | case4 s last hlast opener hp hle ih =>
    refine ih (List.prefix_of_prefix_length_le h (List.dropLast_prefix s) ?_)
    have hne : t ++ [c] ≠ s := by
      rintro rfl
      rw [List.getLast?_concat] at hlast
      rw [Option.some.inj hlast, hp] at hc
      cases hc
    have hlt : (t ++ [c]).length < s.length :=
      h.length_le.lt_of_ne fun heq => hne (h.eq_of_length heq)
    rw [List.length_dropLast]
    omega

lemma rdropWhile_keeps {p : UInt16 → Bool} (hc : ¬ p c) (h : t ++ [c] <+: s) :
    t ++ [c] <+: s.rdropWhile p := by
  obtain ⟨u, rfl⟩ := h
  induction u using List.reverseRecOn with
  | nil =>
    rw [List.append_nil, List.rdropWhile_concat_neg _ _ _ hc]
  | append_singleton u d ih =>
    rw [← List.append_assoc, List.rdropWhile_concat]
    split
    · exact ih
    · exact (List.prefix_append _ u).trans (List.prefix_append _ [d])

lemma trimUrl_isPrefix (m : Text) : trimUrl m <+: m :=
  (trimClosers_isPrefix _).trans (List.rdropWhile_prefix isPunct m)

lemma trimUrl_keeps (hpunct : ¬ isPunct c) (hc : pairs c = none) (h : t ++ [c] <+: m) :
    t ++ [c] <+: trimUrl m :=
  trimClosers_keeps hc (rdropWhile_keeps hpunct h)

/-! ### Nothing is lost -/

/-- Matches one after the other, each where it says it is. -/
def Runs (text : Text) : ℕ → List (ℕ × Text) → Prop
  | _, [] => True
  | i, (start, m) :: ms => i ≤ start ∧ m <+: text.drop start ∧ Runs text (start + m.length) ms

lemma Runs.mono {ms : List (ℕ × Text)} {j : ℕ} (h : Runs text i ms) (hji : j ≤ i) :
    Runs text j ms := by
  cases ms with
  | nil => trivial
  | cons x ms => exact ⟨hji.trans h.1, h.2⟩

lemma runs_matchAll (text : Text) (i : ℕ) : Runs text i (matchAll text i) := by
  fun_induction matchAll text i with
  | case1 i hi n hn ih =>
    refine ⟨le_rfl, List.take_prefix _ _, ih.mono ?_⟩
    rw [List.length_take]
    omega
  | case2 i hi hn ih => exact ih.mono (Nat.le_succ i)
  | case3 i hi => trivial

lemma visible_renderMatches {ms : List (ℕ × Text)} (h : Runs text last ms)
    (hlast : last ≤ text.length) :
    (renderMatches text last ms).flatMap Part.visible = text.drop last := by
  induction ms generalizing last with
  | nil =>
    rw [renderMatches]
    split_ifs with hlt
    · simp [Part.visible]
    · rw [List.flatMap_nil, List.drop_eq_nil_of_le (by omega)]
  | cons x ms ih =>
    obtain ⟨start, m⟩ := x
    obtain ⟨hstart, hm, hrest⟩ := h
    rw [renderMatches]
    split_ifs with hraw hlt
    · exact ih (hrest.mono (by omega)) hlast
    all_goals
      have hprefix : trimUrl m <+: text.drop start := (trimUrl_isPrefix m).trans hm
      have hlen := hprefix.length_le
      have hpos := List.length_pos_iff.mpr hraw
      rw [List.length_drop] at hlen
      have hmlen := (trimUrl_isPrefix m).length_le
      have hshown : trimUrl m ++ text.drop (start + (trimUrl m).length) = text.drop start := by
        rw [← List.drop_drop]
        exact (List.prefix_iff_eq_append.mp hprefix)
      have htail := ih (hrest.mono (by omega : start + (trimUrl m).length ≤ _)) (by omega)
    · have hbefore : (text.take start).drop last ++ text.drop start = text.drop last := by
        have h := congrArg (List.drop last) (List.take_append_drop start text)
        rwa [List.drop_append_of_le_length (by rw [List.length_take]; omega)] at h
      rw [List.flatMap_append, List.flatMap_cons, List.flatMap_nil, List.append_nil,
        List.flatMap_cons, htail, Part.visible, Part.visible, hshown, hbefore]
    · obtain rfl : last = start := by omega
      rw [List.nil_append, List.flatMap_cons, htail, Part.visible, hshown]

/-- **No text is lost.** -/
theorem visible_renderText (text : Text) : (renderText text).flatMap Part.visible = text :=
  visible_renderMatches (runs_matchAll text 0) (Nat.zero_le _)

/-! ### Where the links go -/

lemma mem_renderMatches {ms : List (ℕ × Text)} {url : Text} :
    .link raw url ∈ renderMatches text last ms ↔
      ∃ x ∈ ms, trimUrl x.2 = raw ∧ raw ≠ [] ∧ url = href raw := by
  induction ms generalizing last with
  | nil =>
    rw [renderMatches]
    split_ifs <;> simp
  | cons x ms ih =>
    obtain ⟨start, m⟩ := x
    have hlink : Part.link raw url = .link (trimUrl m) (href (trimUrl m)) ↔
        trimUrl m = raw ∧ url = href raw := by
      rw [Part.link.injEq]
      constructor
      · rintro ⟨rfl, rfl⟩
        exact ⟨rfl, rfl⟩
      · rintro ⟨rfl, rfl⟩
        exact ⟨rfl, rfl⟩
    rw [renderMatches, List.exists_mem_cons_iff]
    dsimp only
    by_cases hraw : trimUrl m = []
    · rw [if_pos hraw, ih]
      refine (or_iff_right ?_).symm
      rintro ⟨rfl, hne, -⟩
      exact hne hraw
    · have htext : .link raw url ∉
          if last < start then [Part.text ((text.take start).drop last)] else [] := by
        split_ifs <;> simp
      rw [if_neg hraw, List.mem_append, or_iff_right htext, List.mem_cons, ih, hlink]
      refine or_congr_left (and_congr_right fun h => ?_)
      exact (and_iff_right (h ▸ hraw)).symm

/-- Begins with `http://` or `https://`, in any case. -/
def Http (s : Text) : Prop := StartsWithI HTTP s ∨ StartsWithI HTTPS s

instance (s : Text) : Decidable (Http s) := inferInstanceAs (Decidable (_ ∨ _))

/-- A match whose link has a scheme: its own, or one for a `www.` in lower case that is not
trimmed. -/
def Web (m : Text) : Prop :=
  Http m ∨ WWW <+: m ∧ ∃ c ∈ m.drop WWW.length, ¬ isPunct c

variable {lit : Text} {d : UInt16}

lemma StartsWithI.of_isPrefix (h : StartsWithI lit s) (hs : s <+: t) : StartsWithI lit t := by
  obtain ⟨u, rfl⟩ := hs
  have hlen := congrArg List.length h
  rw [List.length_map, List.length_take] at hlen
  rw [StartsWithI, List.take_append_of_le_length (by omega)]
  exact h

lemma Http.of_isPrefix (h : Http s) (hs : s <+: t) : Http t :=
  h.imp (·.of_isPrefix hs) (·.of_isPrefix hs)

lemma StartsWithI.exists_last (h : StartsWithI (lit ++ [d]) m) :
    ∃ t c, t ++ [c] <+: m ∧ StartsWithI (lit ++ [d]) (t ++ [c]) ∧ lower c = d := by
  obtain ⟨t, u, htake, ht, hu⟩ := List.map_eq_append_iff.mp h
  obtain ⟨c, u', rfl, hc, hu'⟩ := List.map_eq_cons_iff.mp hu
  obtain rfl := List.map_eq_nil_iff.mp hu'
  refine ⟨t, c, htake ▸ List.take_prefix _ m, ?_, hc⟩
  rw [StartsWithI, ← htake, List.take_take, min_self]
  exact h

lemma lower_eq (h : lower c = d) (hd : d.toNat < 0x61) : c = d := by
  rw [lower] at h
  split_ifs at h with hupper
  · have hlow : 0x41 ≤ c.toNat := UInt16.le_iff_toNat_le.mp hupper.1
    have hhigh : c.toNat ≤ 0x5a := UInt16.le_iff_toNat_le.mp hupper.2
    have hsum : (c.toNat + 0x20) % 2 ^ 16 = d.toNat := by rw [← h, UInt16.toNat_add]; rfl
    omega
  · exact h

lemma trimUrl_startsWith (lit : Text) (h : StartsWithI (lit ++ [0x2f]) m) :
    StartsWithI (lit ++ [0x2f]) (trimUrl m) := by
  obtain ⟨t, c, hprefix, hstarts, hc⟩ := h.exists_last
  obtain rfl := lower_eq hc (by decide)
  exact hstarts.of_isPrefix (trimUrl_keeps (by decide) (by decide) hprefix)

lemma Http.trimUrl (h : Http m) : Http (trimUrl m) :=
  h.imp (trimUrl_startsWith HTTP.dropLast) (trimUrl_startsWith HTTPS.dropLast)

lemma www_trimUrl (h : WWW <+: m) (hc : c ∈ m.drop WWW.length) (hpunct : ¬ isPunct c) :
    WWW <+: trimUrl m := by
  obtain ⟨u, rfl⟩ := h
  rw [List.drop_left] at hc
  obtain ⟨before, after, rfl⟩ := List.append_of_mem hc
  have hstays : (WWW ++ before) ++ [c] <+: (WWW ++ (before ++ c :: after)).rdropWhile isPunct := by
    refine rdropWhile_keeps hpunct ⟨after, ?_⟩
    simp only [List.append_assoc, List.cons_append, List.nil_append]
  have hwww : WWW <+: (WWW ++ (before ++ c :: after)).rdropWhile isPunct := by
    rw [List.append_assoc] at hstays
    exact (List.prefix_append WWW _).trans hstays
  exact trimClosers_keeps (t := WWW.dropLast) (c := 0x2e) (by decide) hwww

/-- What is left of a match does not end in punctuation, so a `www.` is followed by more. -/
lemma www_of_trimUrl (h : WWW <+: trimUrl m) :
    WWW <+: m ∧ ∃ c ∈ m.drop WWW.length, ¬ isPunct c := by
  have hkept : WWW <+: m.rdropWhile isPunct := h.trans (trimClosers_isPrefix _)
  obtain ⟨u, hu⟩ := hkept
  obtain ⟨v, hv⟩ := List.rdropWhile_prefix isPunct m
  have hne : m.rdropWhile isPunct ≠ [] := by
    rw [← hu]
    exact List.append_ne_nil_of_left_ne_nil (by decide) u
  have hlast := List.rdropWhile_last_not isPunct m hne
  have hm : m = WWW ++ (u ++ v) := by rw [← hv, ← hu, List.append_assoc]
  refine ⟨⟨u ++ v, hm.symm⟩, ?_⟩
  cases u using List.reverseRecOn with
  | nil =>
    refine absurd ?_ hlast
    simp only [← hu]
    exact (by decide : isPunct 0x2e)
  | append_singleton u c =>
    refine ⟨c, ?_, ?_⟩
    · rw [hm, List.drop_left]
      simp
    · simp only [← hu, ← List.append_assoc, List.getLast_append_singleton] at hlast
      exact hlast

/-- **The link of a match.** -/
lemma href_iff (m : Text) : Http (href (trimUrl m)) ↔ Web m := by
  rw [href]
  split_ifs with hwww
  · rw [List.isPrefixOf_iff_prefix] at hwww
    refine iff_of_true (.inr ?_) (.inr (www_of_trimUrl hwww))
    exact StartsWithI.of_isPrefix (s := HTTPS) rfl (List.prefix_append _ _)
  · rw [List.isPrefixOf_iff_prefix] at hwww
    refine ⟨fun h => .inl (h.of_isPrefix (trimUrl_isPrefix m)), ?_⟩
    rintro (h | ⟨h, c, hc, hpunct⟩)
    · exact h.trimUrl
    · exact absurd (www_trimUrl h hc hpunct) hwww

lemma StartsWithI.head (h : StartsWithI (d :: lit) s) : ∃ c rest, s = c :: rest ∧ lower c = d := by
  cases s with
  | nil => cases h
  | cons c rest => exact ⟨c, rest, rfl, (List.cons.inj h).1⟩

lemma headLen_pos (h : headLen s = some n) :
    0 < n ∧ ∃ c rest, s = c :: rest ∧ (lower c = 0x68 ∨ lower c = 0x77) := by
  rw [headLen] at h
  split_ifs at h with hhttps hhttp hwww
  · obtain ⟨c, rest, rfl, hc⟩ := StartsWithI.head hhttps
    exact ⟨Option.some.inj h ▸ by decide, c, rest, rfl, .inl hc⟩
  · obtain ⟨c, rest, rfl, hc⟩ := StartsWithI.head hhttp
    exact ⟨Option.some.inj h ▸ by decide, c, rest, rfl, .inl hc⟩
  · obtain ⟨c, rest, rfl, hc⟩ := StartsWithI.head hwww
    exact ⟨Option.some.inj h ▸ by decide, c, rest, rfl, .inr hc⟩

lemma letter_stays (h : lower c = 0x68 ∨ lower c = 0x77) : ¬ isPunct c ∧ pairs c = none := by
  have hpunct : ¬ isPunct c := by
    intro hc
    rw [isPunct, List.contains_iff_mem] at hc
    fin_cases hc <;> revert h <;> decide
  refine ⟨hpunct, ?_⟩
  rw [pairs, if_neg, if_neg, if_neg]
  all_goals
    rintro rfl
    revert h
    decide

lemma trimUrl_matchAll {x : ℕ × Text} (h : x ∈ matchAll text i) : trimUrl x.2 ≠ [] := by
  fun_induction matchAll text i with
  | case1 i hi n hn ih =>
    rcases List.mem_cons.mp h with rfl | h
    · rw [matchAt] at hn
      split_ifs at hn
      obtain ⟨k, hhead, hrun⟩ := Option.bind_eq_some_iff.mp hn
      obtain ⟨hk, c, rest, hdrop, hc⟩ := headLen_pos hhead
      have hkn : k ≤ n := by
        dsimp only at hrun
        split_ifs at hrun
        rw [← Option.some.inj hrun]
        exact Nat.le_add_right _ _
      have hprefix : [] ++ [c] <+: (text.drop i).take n := by
        obtain ⟨n, rfl⟩ : ∃ n', n = n' + 1 := ⟨n - 1, by omega⟩
        rw [hdrop, List.take_succ_cons]
        exact List.prefix_append [c] _
      obtain ⟨hpunct, hpairs⟩ := letter_stays hc
      have hlen := (trimUrl_keeps hpunct hpairs hprefix).length_le
      exact List.length_pos_iff.mp hlen
    · exact ih h
  | case2 i hi hn ih => exact ih h
  | case3 i hi => cases h

/-- **Where the links go.** No text is lost, and all links have a scheme just when every match
does or is a `www.` in lower case with more than punctuation after it. -/
theorem renderText_web_iff (text : Text) :
    ((renderText text).flatMap Part.visible = text ∧
        ∀ raw url, .link raw url ∈ renderText text → Http url) ↔
      ∀ x ∈ matchAll text 0, Web x.2 := by
  rw [and_iff_right (visible_renderText text)]
  constructor
  · intro h x hx
    rw [← href_iff]
    exact h (trimUrl x.2) _ (mem_renderMatches.mpr ⟨x, hx, rfl, trimUrl_matchAll hx, rfl⟩)
  · intro h raw url hlink
    obtain ⟨x, hx, rfl, -, rfl⟩ := mem_renderMatches.mp hlink
    exact (href_iff x.2).mpr (h x hx)

/-- `WWW.a` is a link to itself, with no scheme. -/
theorem renderText_shouted :
    renderText [0x57, 0x57, 0x57, 0x2e, 0x61] =
        [.link [0x57, 0x57, 0x57, 0x2e, 0x61] [0x57, 0x57, 0x57, 0x2e, 0x61]] ∧
      ¬ Http [0x57, 0x57, 0x57, 0x2e, 0x61] := by
  decide +kernel

end VoiceHub.Client.ChatText
