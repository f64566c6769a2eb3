import VoiceHub.Lib.HashMap
import VoiceHub.Lib.Machine
import VoiceHub.Sfu.Net.MuxLocks

/-!
Which connection a datagram on the shared socket goes to: by its source address, or by the
ufrag that its STUN request names.

An address may be learned by one connection after another, and each keeps its own list of
remotes. A route leads to a connection that has its address among them.
-/

namespace VoiceHub.Sfu.Net.Routes

open VoiceHub.Lib VoiceHub.Lib.Machine

/-- `Pc`, what it has on the socket. -/
structure Pc (Addr Ufrag : Type) where
  remotes : List Addr
  ufrag : Ufrag

/-- `MuxSocket`, with the connections that were spawned on it. -/
structure Mux (Addr Ufrag : Type) where
  routes : HashMap Addr PcId
  ufrags : HashMap Ufrag PcId
  pcs : HashMap PcId (Pc Addr Ufrag)

inductive Op (Addr Ufrag : Type)
  | spawn (pc : PcId) (ufrag : Ufrag)
  | learn (src : Addr) (pc : PcId)
  /-- `Pc::poll`, with the destinations of what it transmits. -/
  | poll (pc : PcId) (destinations : List Addr)
  /-- `Pc::refresh_ufrag`, when the ufrag is the given one. -/
  | refreshUfrag (pc : PcId) (current : Ufrag)
  | unregister (pc : PcId)

section Steps

variable {Addr Ufrag : Type} [DecidableEq Addr] [DecidableEq Ufrag]

namespace Mux

def empty : Mux Addr Ufrag := ⟨∅, ∅, ∅⟩

def spawn (m : Mux Addr Ufrag) (pc : PcId) (ufrag : Ufrag) : Mux Addr Ufrag :=
  { m with ufrags := m.ufrags.insert ufrag pc, pcs := m.pcs.insert pc ⟨[], ufrag⟩ }

/-- `routes.insert(addr, pc)` and `remotes.push(addr)`. -/
def addRoute (m : Mux Addr Ufrag) (pc : PcId) (addr : Addr) : Mux Addr Ufrag :=
  { m with
    routes := m.routes.insert addr pc
    pcs := HashMap.modify pc (fun p => { p with remotes := p.remotes ++ [addr] }) m.pcs }

def learn (m : Mux Addr Ufrag) (src : Addr) (pc : PcId) : Mux Addr Ufrag :=
  if m.routes.lookup src = some pc then m else m.addRoute pc src

/-- What `poll` does for one datagram. -/
def transmit (pc : PcId) (m : Mux Addr Ufrag) (destination : Addr) : Mux Addr Ufrag :=
  if destination ∈ ((m.pcs.lookup pc).map Pc.remotes).getD [] then m
  else m.addRoute pc destination

def poll (m : Mux Addr Ufrag) (pc : PcId) (destinations : List Addr) : Mux Addr Ufrag :=
  destinations.foldl (transmit pc) m

def refreshUfrag (m : Mux Addr Ufrag) (pc : PcId) (p : Pc Addr Ufrag) (current : Ufrag) :
    Mux Addr Ufrag :=
  if p.ufrag = current then m
  else
    { m with
      ufrags := (m.ufrags.erase p.ufrag).insert current pc
      pcs := m.pcs.insert pc { p with ufrag := current } }

/-- The routes of one connection are removed, unless they lead elsewhere by now. -/
def removeRoutes (pc : PcId) (routes : HashMap Addr PcId) (remotes : List Addr) :
    HashMap Addr PcId :=
  remotes.foldl
    (fun routes r => if routes.lookup r = some pc then routes.erase r else routes) routes

def unregister (m : Mux Addr Ufrag) (pc : PcId) (p : Pc Addr Ufrag) : Mux Addr Ufrag where
  routes := removeRoutes pc m.routes p.remotes
  ufrags := m.ufrags.erase p.ufrag
  pcs := m.pcs.insert pc { p with remotes := [] }

/-- A connection has a new id, and only a connection that was spawned is called. -/
def step (m : Mux Addr Ufrag) : Op Addr Ufrag → Option (Mux Addr Ufrag)
  | .spawn pc ufrag => if m.pcs.lookup pc = none then some (m.spawn pc ufrag) else none
  | .learn src pc => (m.pcs.lookup pc).map fun _ => m.learn src pc
  | .poll pc destinations => (m.pcs.lookup pc).map fun _ => m.poll pc destinations
  | .refreshUfrag pc current => (m.pcs.lookup pc).map fun p => m.refreshUfrag pc p current
  | .unregister pc => (m.pcs.lookup pc).map (m.unregister pc)

end Mux

/-- Ufrags are globally unique: each is minted for one connection. -/
def Unique (owner : Ufrag → PcId) (_ : Mux Addr Ufrag) : Op Addr Ufrag → Prop
  | .spawn pc ufrag => owner ufrag = pc
  | .refreshUfrag pc current => owner current = pc
  | .learn .. | .poll .. | .unregister _ => True

instance (owner : Ufrag → PcId) (m : Mux Addr Ufrag) (op : Op Addr Ufrag) :
    Decidable (Unique owner m op) :=
  match op with
  | .spawn pc ufrag => inferInstanceAs (Decidable (owner ufrag = pc))
  | .refreshUfrag pc current => inferInstanceAs (Decidable (owner current = pc))
  | .learn .. | .poll .. | .unregister _ => inferInstanceAs (Decidable True)

/-! ### Whom a route leads to -/

/-- A route leads to a connection that has its address, and one by ufrag to the connection
whose ufrag it is. -/
structure Owned (owner : Ufrag → PcId) (m : Mux Addr Ufrag) : Prop where
  routes : ∀ src pc, m.routes.lookup src = some pc →
    ∃ p, m.pcs.lookup pc = some p ∧ src ∈ p.remotes
  ufrags : ∀ u pc, m.ufrags.lookup u = some pc → ∃ p, m.pcs.lookup pc = some p ∧ p.ufrag = u
  minted : ∀ pc p, m.pcs.lookup pc = some p → owner p.ufrag = pc

variable {owner : Ufrag → PcId} {m m' : Mux Addr Ufrag} {pc : PcId} {p : Pc Addr Ufrag}

namespace Owned

lemma empty : Owned owner (.empty : Mux Addr Ufrag) where
  routes := fun _ _ h => by cases h
  ufrags := fun _ _ h => by cases h
  minted := fun _ _ h => by cases h

lemma spawn {ufrag : Ufrag} (h : Owned owner m) (hnew : m.pcs.lookup pc = none)
    (hminted : owner ufrag = pc) : Owned owner (m.spawn pc ufrag) where
  routes src other hroute := by
    obtain ⟨p, hp, hsrc⟩ := h.routes src other hroute
    have hne : other ≠ pc := by
      rintro rfl
      rw [hnew] at hp
      cases hp
    exact ⟨p, by rw [Mux.spawn, HashMap.lookup_insert, if_neg hne]; exact hp, hsrc⟩
  ufrags u other hroute := by
    rw [Mux.spawn, HashMap.lookup_insert] at hroute
    split_ifs at hroute with hu
    · cases hroute
      exact ⟨⟨[], ufrag⟩, by rw [Mux.spawn, HashMap.lookup_insert, if_pos rfl], hu.symm⟩
    · obtain ⟨p, hp, hufrag⟩ := h.ufrags u other hroute
      have hne : other ≠ pc := by
        rintro rfl
        rw [hnew] at hp
        cases hp
      exact ⟨p, by rw [Mux.spawn, HashMap.lookup_insert, if_neg hne]; exact hp, hufrag⟩
  minted other p hp := by
    rw [Mux.spawn, HashMap.lookup_insert] at hp
    split_ifs at hp with hother
    · cases hp
      exact hminted.trans hother.symm
    · exact h.minted other p hp

lemma addRoute (h : Owned owner m) (hp : m.pcs.lookup pc = some p) (addr : Addr) :
    Owned owner (m.addRoute pc addr) := by
  have hpcs (other : PcId) : (m.addRoute pc addr).pcs.lookup other =
      if other = pc then some { p with remotes := p.remotes ++ [addr] }
      else m.pcs.lookup other := by
    rw [Mux.addRoute, HashMap.lookup_modify, hp, Option.map_some]
  refine ⟨fun src other hroute => ?_, fun u other hroute => ?_, fun other q hq => ?_⟩
  · rw [Mux.addRoute, HashMap.lookup_insert] at hroute
    rw [hpcs]
    split_ifs at hroute with hsrc
    · cases hroute
      exact ⟨_, if_pos rfl, List.mem_append_right _ (by rw [hsrc]; exact List.mem_singleton_self _)⟩
    · obtain ⟨q, hq, hmem⟩ := h.routes src other hroute
      by_cases hother : other = pc
      · subst hother
        obtain rfl : p = q := Option.some.inj (hp.symm.trans hq)
        exact ⟨_, if_pos rfl, List.mem_append_left _ hmem⟩
      · exact ⟨q, by rw [if_neg hother]; exact hq, hmem⟩
  · obtain ⟨q, hq, hu⟩ := h.ufrags u other hroute
    rw [hpcs]
    by_cases hother : other = pc
    · subst hother
      obtain rfl : p = q := Option.some.inj (hp.symm.trans hq)
      exact ⟨_, if_pos rfl, hu⟩
    · exact ⟨q, by rw [if_neg hother]; exact hq, hu⟩
  · rw [hpcs] at hq
    split_ifs at hq with hother
    · cases hq
      rw [hother]
      exact h.minted pc p hp
    · exact h.minted other q hq

lemma learn (h : Owned owner m) (hp : m.pcs.lookup pc = some p) (src : Addr) :
    Owned owner (m.learn src pc) := by
  rw [Mux.learn]
  split_ifs
  · exact h
  · exact h.addRoute hp src

lemma poll (h : Owned owner m) (hp : m.pcs.lookup pc = some p) (destinations : List Addr) :
    Owned owner (m.poll pc destinations) := by
  induction destinations generalizing m p with
  | nil => exact h
  | cons destination destinations ih =>
    change Owned owner ((m.transmit pc destination).poll pc destinations)
    rw [Mux.transmit]
    split_ifs
    · exact ih h hp
    · refine ih (h.addRoute hp destination)
        (p := { p with remotes := p.remotes ++ [destination] }) ?_
      rw [Mux.addRoute, HashMap.lookup_modify, if_pos rfl, hp, Option.map_some]

lemma refreshUfrag {current : Ufrag} (h : Owned owner m) (hp : m.pcs.lookup pc = some p)
    (hminted : owner current = pc) : Owned owner (m.refreshUfrag pc p current) := by
  rw [Mux.refreshUfrag]
  split_ifs with hsame
  · exact h
  refine ⟨fun src other hroute => ?_, fun u other hroute => ?_, fun other q hq => ?_⟩
  · obtain ⟨q, hq, hsrc⟩ := h.routes src other hroute
    by_cases hother : other = pc
    · subst hother
      obtain rfl : p = q := Option.some.inj (hp.symm.trans hq)
      exact ⟨_, AList.lookup_insert _, hsrc⟩
    · exact ⟨q, by rw [HashMap.lookup_insert, if_neg hother]; exact hq, hsrc⟩
  · rw [HashMap.lookup_insert, HashMap.lookup_erase] at hroute
    split_ifs at hroute with hu hold
    · cases hroute
      exact ⟨_, AList.lookup_insert _, hu.symm⟩
    · obtain ⟨q, hq, hqu⟩ := h.ufrags u other hroute
      have hother : other ≠ pc := by
        rintro rfl
        obtain rfl : p = q := Option.some.inj (hp.symm.trans hq)
        exact hold hqu.symm
      exact ⟨q, by rw [HashMap.lookup_insert, if_neg hother]; exact hq, hqu⟩
  · rw [HashMap.lookup_insert] at hq
    split_ifs at hq with hother
    · cases hq
      exact hminted.trans hother.symm
    · exact h.minted other q hq

end Owned

lemma lookup_removeRoutes (pc other : PcId) (routes : HashMap Addr PcId) (remotes : List Addr)
    (src : Addr) : (Mux.removeRoutes pc routes remotes).lookup src = some other ↔
      routes.lookup src = some other ∧ (other = pc → src ∉ remotes) := by
  induction remotes generalizing routes with
  | nil => simp [Mux.removeRoutes]
  | cons r remotes ih =>
    change (Mux.removeRoutes pc (if routes.lookup r = some pc then _ else _) remotes).lookup src =
      some other ↔ _
    rw [ih, List.mem_cons, not_or]
    split_ifs with hr
    · rw [HashMap.lookup_erase]
      split_ifs with hsrc
      · subst hsrc
        rw [hr]
        simp +contextual [eq_comm]
      · simp [hsrc]
    · refine and_congr_right fun hroute => forall_congr' fun hother => ?_
      have hne : src ≠ r := by
        rintro rfl
        exact hr (hother ▸ hroute)
      simp [hne]

section Unregister

variable (h : Owned owner m) (hp : m.pcs.lookup pc = some p)

include h hp

/-- **`unregister` removes the connection's address routes**, and no others. -/
lemma unregister_routes (src : Addr) (other : PcId) :
    (m.unregister pc p).routes.lookup src = some other ↔
      other ≠ pc ∧ m.routes.lookup src = some other := by
  rw [Mux.unregister, lookup_removeRoutes, and_comm]
  refine and_congr_left fun hroute => ⟨fun hgone => ?_, fun hne heq => absurd heq hne⟩
  rintro rfl
  obtain ⟨q, hq, hsrc⟩ := h.routes src other hroute
  obtain rfl : p = q := Option.some.inj (hp.symm.trans hq)
  exact hgone rfl hsrc

lemma unregister_ufrags (u : Ufrag) (other : PcId) :
    (m.unregister pc p).ufrags.lookup u = some other ↔
      other ≠ pc ∧ m.ufrags.lookup u = some other := by
  rw [Mux.unregister, HashMap.lookup_erase]
  split_ifs with hu
  · refine iff_of_false (fun h => by cases h) ?_
    rintro ⟨hne, hroute⟩
    obtain ⟨q, hq, hqu⟩ := h.ufrags u other hroute
    refine hne ?_
    rw [← h.minted other q hq, hqu, hu, h.minted pc p hp]
  · refine ⟨fun hroute => ⟨?_, hroute⟩, And.right⟩
    rintro rfl
    obtain ⟨q, hq, hqu⟩ := h.ufrags u other hroute
    obtain rfl : p = q := Option.some.inj (hp.symm.trans hq)
    exact hu hqu.symm

lemma Owned.unregister : Owned owner (m.unregister pc p) := by
  have hpcs {other : PcId} (hne : other ≠ pc) :
      (m.unregister pc p).pcs.lookup other = m.pcs.lookup other := by
    rw [Mux.unregister, HashMap.lookup_insert, if_neg hne]
  refine ⟨fun src other hroute => ?_, fun u other hroute => ?_, fun other q hq => ?_⟩
  · obtain ⟨hne, hroute⟩ := (unregister_routes h hp src other).mp hroute
    rw [hpcs hne]
    exact h.routes src other hroute
  · obtain ⟨hne, hroute⟩ := (unregister_ufrags h hp u other).mp hroute
    rw [hpcs hne]
    exact h.ufrags u other hroute
  · by_cases hother : other = pc
    · rw [hother, Mux.unregister, HashMap.lookup_insert, if_pos rfl] at hq
      cases hq
      rw [hother]
      exact h.minted pc p hp
    · rw [hpcs hother] at hq
      exact h.minted other q hq

end Unregister

lemma Owned.step {op : Op Addr Ufrag} (h : Owned owner m) (hunique : Unique owner m op)
    (hstep : m.step op = some m') : Owned owner m' := by
  cases op with
  | spawn pc ufrag =>
    rw [Mux.step] at hstep
    split_ifs at hstep with hnew
    cases hstep
    exact h.spawn hnew hunique
  | learn src pc =>
    obtain ⟨p, hp, rfl⟩ := Option.map_eq_some_iff.mp hstep
    exact h.learn hp src
  | poll pc destinations =>
    obtain ⟨p, hp, rfl⟩ := Option.map_eq_some_iff.mp hstep
    exact h.poll hp destinations
  | refreshUfrag pc current =>
    obtain ⟨p, hp, rfl⟩ := Option.map_eq_some_iff.mp hstep
    exact h.refreshUfrag hp hunique
  | unregister pc =>
    obtain ⟨p, hp, rfl⟩ := Option.map_eq_some_iff.mp hstep
    exact Owned.unregister h hp

/-- **Routes lead to their owners.** After every run, an address leads to a connection that has
it among its remotes, and a ufrag to the connection whose ufrag it is. Once a connection is
unregistered no route leads to it, and those that lead to others are all still there. -/
theorem routes_owned (hreach : Reach Mux.step (Unique owner) .empty m) :
    (∀ src pc, m.routes.lookup src = some pc →
      ∃ p, m.pcs.lookup pc = some p ∧ src ∈ p.remotes) ∧
    (∀ u pc, m.ufrags.lookup u = some pc → ∃ p, m.pcs.lookup pc = some p ∧ p.ufrag = u) ∧
    ∀ pc m', m.step (.unregister pc) = some m' →
      (∀ src other, m'.routes.lookup src = some other ↔
        other ≠ pc ∧ m.routes.lookup src = some other) ∧
      (∀ u other, m'.ufrags.lookup u = some other ↔
        other ≠ pc ∧ m.ufrags.lookup u = some other) := by
  have h : Owned owner m := hreach.invariant .empty fun _ _ _ h hunique => h.step hunique
  refine ⟨h.routes, h.ufrags, fun pc m' hstep => ?_⟩
  obtain ⟨p, hp, rfl⟩ := Option.map_eq_some_iff.mp hstep
  exact ⟨unregister_routes h hp, unregister_ufrags h hp⟩

end Steps

/-- Two connections use one address in turn, and the one that was there first has it now. -/
def contended : List (Op ℕ ℕ) :=
  [.spawn 0 0, .spawn 1 1, .learn 7 0, .learn 7 1, .poll 1 [7, 8], .learn 7 0]

/-- The other one goes: its remote `8` is no longer routed, and `7` leads where it did. -/
theorem routes_owned_contended :
    (((run Mux.step .empty contended).getD .empty).step (.unregister 1)).isSome ∧
      ∀ m', ((run Mux.step .empty contended).getD .empty).step (.unregister 1) = some m' →
        m'.routes.lookup 7 = some 0 ∧ m'.routes.lookup 8 ≠ some 1 := by
  refine ⟨by decide, fun m' hstep => ?_⟩
  have hmeets : Meets Mux.step (Unique id) .empty contended := by decide
  obtain ⟨-, -, hgone⟩ := routes_owned (Reach.of_isSome hmeets (by decide))
  obtain ⟨hroutes, -⟩ := hgone 1 m' hstep
  exact ⟨(hroutes 7 0).mpr ⟨by decide, by decide⟩, fun hroute => ((hroutes 8 1).mp hroute).1 rfl⟩

end VoiceHub.Sfu.Net.Routes
