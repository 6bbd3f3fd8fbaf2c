import ByteTape.Proofs.Core.Progress
import Mathlib.Logic.Function.Iterate

/-!
# An attendant stops where the run is over

An attendant looks after a run for a number of slices, but leaves as soon as an event is final. Slices
counted out to the end come to the same, since a run that is over is left as it is by every further
slice. Of the pauses the attendant keeps only every so many-th for showing, while counted slices keep
them all.
-/

namespace ByteTape

namespace Attendance

open Machine

/-- The sightings of every so many-th pause, the first included. -/
def thinned (every : Nat) (sightings : Array Sighting) : Array Sighting :=
  ((sightings.toList.zipIdx.filter fun sighting => sighting.2 % max every 1 = 0).map
    Prod.fst).toArray

/-- One more sighting is kept exactly if its pause is the one to keep. -/
theorem thinned_push (every : Nat) (sightings : Array Sighting) (sighting : Sighting) :
    thinned every (sightings.push sighting) =
      if sightings.size % max every 1 = 0 then (thinned every sightings).push sighting
      else thinned every sightings := by
  have hLast : (sightings.push sighting).toList.zipIdx =
      sightings.toList.zipIdx ++ [(sighting, sightings.size)] := by
    rw [Array.toList_push, List.zipIdx_append, Nat.zero_add, Array.length_toList]
    rfl
  rw [thinned, hLast, List.filter_append, List.map_append]
  split
  · rename_i hKept
    rw [List.filter_cons_of_pos (by simpa using hKept)]
    simp [thinned]
  · rename_i hLeft
    rw [List.filter_cons_of_neg (by simpa using hLeft)]
    simp [thinned]

/-- The attendance of which only every so many-th pause is kept. -/
def thin (attendance : Attendance) (every : Nat) : Attendance :=
  { attendance with sightings := thinned every attendance.sightings }

/-- A slice whose event is final is one after which the run is over. -/
theorem over_slice_of_final {attendance : Attendance} {attendant : Attendant}
    (h : isFinal (attendance.slice attendant).event = true) :
    (attendance.slice attendant).Over := by
  have hSlice : attendance.slice attendant =
      attendance.respond attendant (attendance.machine.execute attendant.cycles).2.event
        (attendance.machine.execute attendant.cycles).2 := by
    rw [← execute_fst]
    rfl
  rw [hSlice, event_respond] at h
  rw [hSlice, respond_of_final attendance attendant _ h]
  refine ⟨?_, rfl⟩
  cases hStatus : (attendance.machine.execute attendant.cycles).2.status with
  | halted => exact .inl hStatus
  | faulted fault => exact .inr ⟨fault, hStatus⟩
  | _ => simp [Machine.event, hStatus, isFinal] at h

/-- To attend a run is to attend it slice by slice, whether or not it comes to its end. -/
theorem attend_eq_iterate (attendant : Attendant) (attendance : Attendance) (slices : Nat) :
    attend attendant attendance slices = (fun now => now.slice attendant)^[slices] attendance := by
  induction slices generalizing attendance with
  | zero => rfl
  | succ slices ih =>
    have hAttend : attend attendant attendance (slices + 1) =
        if isFinal (attendance.slice attendant).event then attendance.slice attendant
        else attend attendant (attendance.slice attendant) slices := by
      rw [attend, slice, event_respond]
    rw [hAttend, Function.iterate_succ_apply]
    split
    · rename_i hFinal
      exact (Function.iterate_fixed (slice_of_over (over_slice_of_final hFinal) attendant) _).symm
    · exact ih _

/-- Who keeps every pause keeps each of them. -/
theorem keeps_each (answer : Nat → String) (cycles pauses : Nat) :
    keeps ⟨answer, cycles, 1⟩ pauses = true := by
  simp [keeps, Nat.mod_one]

/-- A response keeps one sighting for each pause that it ends, if it keeps them all. -/
theorem size_sightings_respond (attendance : Attendance) (answer : Nat → String) (cycles : Nat)
    (event : Event) (machine : Machine) (h : attendance.sightings.size = attendance.pauses) :
    (attendance.respond ⟨answer, cycles, 1⟩ event machine).sightings.size =
      (attendance.respond ⟨answer, cycles, 1⟩ event machine).pauses := by
  cases event with
  | paused inspection => simp [respond, keeps_each, h]
  | _ => exact h

/-- A response that keeps only some pauses is one that keeps them all, thinned out. -/
theorem respond_thin (attendance : Attendance) (attendant : Attendant) (event : Event)
    (machine : Machine) (h : attendance.sightings.size = attendance.pauses) :
    (attendance.thin attendant.every).respond attendant event machine =
      (attendance.respond ⟨attendant.answer, attendant.cycles, 1⟩ event machine).thin
        attendant.every := by
  cases event with
  | paused inspection =>
    have hThinned := thinned_push attendant.every attendance.sightings
      ⟨machine.position, inspection⟩
    rw [h] at hThinned
    simp only [respond, thin, keeps_each, if_true, hThinned]
    simp only [keeps, decide_eq_true_eq]
  | _ => rfl

/-- An attended run is that of slices counted out, of which only the pauses to keep are kept. -/
theorem attend_eq_afterSlices (attendant : Attendant) (machine : Machine) (slices : Nat) :
    (begin machine).attend attendant slices =
      (afterSlices attendant.answer (fun _ => attendant.cycles) machine slices).thin
        attendant.every := by
  have hRuns : (fun now => now.slice attendant)^[slices] (begin machine) =
        (afterSlices attendant.answer (fun _ => attendant.cycles) machine slices).thin
          attendant.every ∧
      (afterSlices attendant.answer (fun _ => attendant.cycles) machine slices).sightings.size =
        (afterSlices attendant.answer (fun _ => attendant.cycles) machine slices).pauses := by
    induction slices with
    | zero => exact ⟨rfl, rfl⟩
    | succ slices ih =>
      obtain ⟨hSame, hSize⟩ := ih
      rw [Function.iterate_succ_apply', hSame, afterSlices]
      exact ⟨respond_thin _ attendant _ _ hSize,
        size_sightings_respond _ attendant.answer attendant.cycles _ _ hSize⟩
  rw [attend_eq_iterate]
  exact hRuns.1

end Attendance

end ByteTape
