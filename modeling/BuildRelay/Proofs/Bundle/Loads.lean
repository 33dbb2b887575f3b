/-
BuildRelay.Proofs.Bundle.Loads — loads during a pass of the compiler.

The gate learns of a pass only if it holds a change when the pass begins. Such a pass holds back
the loads that come in it and those that wait for the change, however long they are prepared to
wait. Any other pass goes by unnoticed. This is meant: a compiler that is first to notice a change
does not keep the bundler waiting.

* `load_isSome_iff` — a load with a budget is a load that waits while the clock runs.
* `loads_after_start_of_pass` — which loads are answered between the start and the end of a pass.
* `unnoticed_pass_lets_loads_go` — a pass in which loads are answered.
-/
import BuildRelay.Proofs.Bundle.Sessions

namespace BuildRelay

namespace Adapter

/-- A load that would wait for at most a budget is answered exactly if one that comes and waits is
let go by then. -/
theorem load_isSome_iff {a : Adapter} (h : Attended a) (id : String) (budget : Nat) :
    (a.load id budget).1.isSome ↔
      a.room.waiters.length ∈ ((a.step .load).step (.advance budget)).room.released := by
  have hroom : ((a.step .load).step (.advance budget)).room =
      (a.room.step .await).step (.advance budget) := rfl
  rw [hroom, ← h.settled.waitWithin_iff budget]
  simp only [load]
  cases (a.room.waitWithin budget).1 <;> simp

/-- An answered load gets the text as it stands. -/
theorem load_eq_of_isSome {a : Adapter} {id : String} {budget : Nat}
    (h : (a.load id budget).1.isSome) : (a.load id budget).1 = some (loaded? a.workspace id) := by
  simp only [load] at h ⊢
  split
  · rfl
  · rename_i hready
    rw [if_neg hready] at h
    cases h

/-- An idle gate lets every load through. -/
theorem load_of_idle {a : Adapter} (h : Attended a) (hphase : a.room.gate.phase = .idle)
    (id : String) (budget : Nat) : (a.load id budget).1 = some (loaded? a.workspace id) := by
  refine load_eq_of_isSome ((load_isSome_iff h id budget).mpr ?_)
  have hreleased := h.settled.await_idle hphase
  exact Room.mem_released_iff.mpr ((h.settled.step .await).released_step hreleased _)

/-- While the compiler works no load is answered, whatever its budget. -/
theorem load_of_running {a : Adapter} (h : Attended a) {t : Ticket}
    (hphase : a.room.gate.phase = .compilerRunning t) (id : String) (budget : Nat) :
    (a.load id budget).1 = none := by
  rw [← Option.not_isSome_iff_eq_none, load_isSome_iff h]
  have hback : Room.HeldBack a.room a.room.waiters.length t := by
    intro w hw
    rw [List.getElem?_eq_none (Nat.le_refl _)] at hw
    cases hw
  have hended : Room.Op.ended ∉ [.await, .advance budget] := by simp
  exact h.settled.not_released_run hphase hback hended

/-- Which loads are answered after the driver has reported, in a session in watch mode, that a pass
starts, and before it reports the end of one. The session may have gone in any way before, and goes
on in any way in the meantime.

If the gate holds a change when the pass starts, the compiler is taken to work on it all the time.
No load that comes is answered, and no load that waits for that change or for the compiler. What is
left are loads that wait on another change, one that the gate does not hold any more.

If the gate holds no change, the pass goes by unnoticed. -/
theorem loads_after_start_of_pass (a : Adapter) {timeout : Nat}
    (hroom : a.room = .ofTimeout timeout) (hannounced : a.builder.announcements = ⟨true, true⟩)
    (before meanwhile : List Op)
    (hwatch : (a.run before).builder.mode = some .watch)
    (hmeanwhile : ∀ op ∈ meanwhile, op.isFinish = false) :
    let found := a.run before
    let begun := found.step (.status .changeDetected)
    let now := begun.run meanwhile
    (∀ t, found.room.gate.phase.ticket? = some t →
      now.room.gate.phase = .compilerRunning t ∧
      (∀ i ∈ now.room.released, i ∈ found.room.released ∨
        ∃ s, s ≠ t ∧ found.room.waiters[i]? = some (.onChange s)) ∧
      ∀ id budget, (now.load id budget).1 = none) ∧
    (found.room.gate.phase = .idle →
      begun.room = found.room ∧
      ∀ id budget, (begun.load id budget).1 = some (loaded? begun.workspace id)) := by
  intro found begun now
  have hfound : Attended found := (attended_of_empty hroom hannounced).run before
  have hbegun : Attended begun := hfound.step _
  have hstarted : begun.room = found.room.step .started := by
    rw [hfound.room_step, gateOps, if_pos hwatch]
    rfl
  have hnow : now.room = (found.room.step .started).run (begun.heard meanwhile) := by
    rw [← hstarted]
    exact hbegun.room_run meanwhile
  have hended : .ended ∉ begun.heard meanwhile := ended_not_mem_heard begun hmeanwhile
  refine ⟨?held, ?idle⟩
  case held =>
    intro t ht
    have hphase : now.room.gate.phase = .compilerRunning t := by
      rw [hnow]
      exact (hfound.settled.step .started).running_run (hfound.settled.phase_step_started ht) hended
    refine ⟨hphase, ?_, load_of_running (hbegun.run meanwhile) hphase⟩
    intro i hi
    rw [hnow] at hi
    exact hfound.settled.released_after_started hfound.takenUp ht hended hi
  case idle =>
    intro hidle
    have hsame : begun.room = found.room := hstarted.trans (hfound.settled.step_started_idle hidle)
    refine ⟨hsame, load_of_idle hbegun ?_⟩
    rw [hsame, hidle]

/-- A bundler that has not asked for anything, on an empty disk. -/
def freshAdapter : Adapter where
  settings := .empty
  builder :=
    { host := ⟨.ofResolver ⟨"/p", ∅⟩, ⟨fun _ => false, fun _ => false, fun _ => none, true⟩,
        fun _ _ _ _ => none, none, ∅, none⟩
      naming := fun _ _ _ => .none
      roots := ["/p"]
      driver := ⟨none, [], .done ()⟩
      mode := none
      announcements := ⟨true, true⟩ }
  room := .ofTimeout 1000

/-- A load that waits for a change, and another change, while the compiler is working on both. -/
theorem loads_after_start_of_pass_with_change :
    (freshAdapter.run [.start true, .change, .load]).builder.mode = some .watch ∧
    (∀ op ∈ [Op.change, .load, .advance 5000], op.isFinish = false) ∧
    ∀ id budget, ((((freshAdapter.run [.start true, .change, .load]).step
      (.status .changeDetected)).run [.change, .load, .advance 5000]).load id budget).1 = none := by
  have hwatch : (freshAdapter.run [.start true, .change, .load]).builder.mode = some .watch := by
    decide
  have hmeanwhile : ∀ op ∈ [Op.change, .load, .advance 5000], op.isFinish = false := by
    simp [Op.isFinish]
  have hpass := loads_after_start_of_pass freshAdapter rfl rfl [.start true, .change, .load]
    [.change, .load, .advance 5000] hwatch hmeanwhile
  exact ⟨hwatch, hmeanwhile, (hpass.1 0 (by decide)).2.2⟩

/-- A pass that begins before the bundler sees a change, and one that begins while a load still
waits on a change that the end of an earlier pass has dropped: a load is answered in the midst of
each. -/
theorem unnoticed_pass_lets_loads_go :
    (freshAdapter.run [.start true]).builder.mode = some .watch ∧
    ((freshAdapter.run [.start true, .status .changeDetected]).load "/p/src/a.ts" 50).1 =
      some none ∧
    let begun := freshAdapter.run [.start true, .change, .load, .status .finishedWithErrors,
      .change, .status .changeDetected]
    0 ∉ begun.room.released ∧ 0 ∈ (begun.step (.advance 1000)).room.released := by
  decide

end Adapter

end BuildRelay
