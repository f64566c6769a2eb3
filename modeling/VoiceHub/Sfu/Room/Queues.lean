import Mathlib
import VoiceHub.Sfu.Room.Ops

/-!
What the queues of a room take in.

Only a step that queues one message, or cancels one queue, touches a queue.
-/

namespace VoiceHub.Sfu.Room

open VoiceHub.Lib

/-- What a step does to the queues. -/
def Act.queues (f : PeerId → Outbox Msg) : Act → PeerId → Outbox Msg
  | .send _ op m => Function.update f op ((f op).send m)
  | .cancel id => Function.update f id { f id with cancelled := true }
  | _ => f

variable {ch : Choice} {a : Act} {st st' : State} {r : Effect} {p : PeerId}

theorem exec_outbox (h : exec ch a st = some r) : r.st.outbox = a.queues st.outbox := by
  by_cases ha : a.moves = false
  · rw [(exec_still h ha).outbox]
    cases a <;> first | rfl | cases ha
  cases a
  case closePublisher s => obtain rfl | rfl := closePublisher_spec h <;> rfl
  case cancel | send | close | delivered | screenShareStart | registerSession | screenShareResume |
      subscribePublisher =>
    obtain rfl := Option.some.inj h
    first
    | rfl
    | simp only [State.close, State.screenShareStart, State.registerSession,
        State.screenShareResume, State.subscribePublisher]
      repeat' split
      all_goals rfl
  all_goals exact absurd rfl ha

lemma exec_log (h : exec ch a st = some r) (p : PeerId) :
    (r.st.outbox p).log = (st.outbox p).log ∨
      ∃ k m, a = .send k p m ∧ (st.outbox p).takes = true ∧
        (r.st.outbox p).log = (st.outbox p).log ++ [m] := by
  rw [exec_outbox h]
  cases a with
  | send k op m =>
    simp only [Act.queues, Function.update_apply]
    split_ifs with hp
    · subst hp
      rw [Outbox.log_send]
      split_ifs with ht
      · exact .inr ⟨k, m, rfl, ht, rfl⟩
      · exact .inl rfl
    · exact .inl rfl
  | cancel id =>
    simp only [Act.queues, Function.update_apply]
    split_ifs with hp
    · subst hp; exact .inl rfl
    · exact .inl rfl
  | _ => exact .inl rfl

lemma begin_log {e : Event} {o : Option PeerId} {todo : List Act}
    (h : e.begin st = some (st', o, todo)) (p : PeerId) :
    (st'.outbox p).log = (st.outbox p).log ∨
      (st'.outbox p).log = (st.outbox p).log ++ [.other] := by
  cases e with
  | other id =>
    obtain ⟨rfl, -⟩ := Prod.mk.inj (Option.some.inj h)
    simp only [State.send, Function.update_apply]
    split_ifs with hp
    · subst hp
      rw [Outbox.log_send]
      split_ifs
      · exact .inr rfl
      · exact .inl rfl
    · exact .inl rfl
  | drain id =>
    simp only [Event.begin] at h
    split at h <;> cases h
    left
    simp only [Function.update_apply]
    split_ifs with hp
    · subst hp; rfl
    · rfl
  | _ =>
    left
    simp only [Event.begin, Event.begin.message] at h
    try split at h
    all_goals cases h
    all_goals rfl

end VoiceHub.Sfu.Room
