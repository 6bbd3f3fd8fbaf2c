import ByteTape.Tape

/-!
# A tape without end

A tape represents a byte for every address, of which only finitely many have been made. Storing a
byte and moving to either side keep what is represented in step with what is done to the bytes; the
cells made on the way cannot be seen.
-/

namespace ByteTape

/-- The bytes of all addresses with one of them changed. -/
def storeByte (bytes : Nat → UInt8) (address : Nat) (value : UInt8) : Nat → UInt8 :=
  fun other => if other = address then value else bytes other

namespace Tape

/-- A tape stands for bytes at all addresses and a current address among them. -/
structure Represents (tape : Tape) (bytes : Nat → UInt8) (address : Nat) : Prop where
  /-- The current cell has been made. -/
  within : tape.WithinCells
  /-- Every byte is as the tape has it. -/
  bytes_eq : ∀ other, tape.byteAt other = bytes other
  /-- The current address is that of the tape. -/
  address_eq : tape.address = address

/-- A fresh tape stands for zeros. -/
theorem represents_blank : blank.Represents (fun _ => 0) 0 := by
  refine ⟨withinCells_blank, ?_, rfl⟩
  intro other
  cases other with
  | zero => rfl
  | succ other => rfl

variable {tape : Tape} {bytes : Nat → UInt8} {address : Nat}

/-- The current byte is read. -/
theorem Represents.read_eq (h : tape.Represents bytes address) : tape.read = bytes address := by
  rw [read, h.address_eq, h.bytes_eq]

/-- Storing a byte changes the current one. -/
theorem Represents.write (h : tape.Represents bytes address) (value : UInt8) :
    (tape.write value).Represents (storeByte bytes address value) address := by
  refine ⟨?_, ?_, h.address_eq⟩
  · have hWithin : tape.address < tape.cells.size := h.within
    have hSize := size_cells_write tape value
    show tape.address < (tape.write value).cells.size
    omega
  · intro other
    rw [byteAt_write tape value other h.within, h.bytes_eq, h.address_eq, storeByte]

/-- Counting up changes the current byte. -/
theorem Represents.increment (h : tape.Represents bytes address) :
    tape.increment.Represents (storeByte bytes address (bytes address + 1)) address := by
  rw [Tape.increment, h.read_eq]
  exact h.write _

/-- Counting down changes the current byte. -/
theorem Represents.decrement (h : tape.Represents bytes address) :
    tape.decrement.Represents (storeByte bytes address (bytes address - 1)) address := by
  rw [Tape.decrement, h.read_eq]
  exact h.write _

/-- Growing changes nothing that can be seen. -/
theorem Represents.growTo (h : tape.Represents bytes address) (target : Nat) :
    (tape.growTo target).Represents bytes address := by
  refine ⟨?_, ?_, h.address_eq⟩
  · have hWithin : tape.address < tape.cells.size := h.within
    rw [WithinCells, address_growTo, size_cells_growTo]
    omega
  · intro other
    rw [byteAt_growTo, h.bytes_eq]

/-- Moving to the right changes no byte. -/
theorem Represents.moveRight (h : tape.Represents bytes address) :
    tape.moveRight.Represents bytes (address + 1) := by
  refine ⟨withinCells_moveRight tape, ?_, ?_⟩
  · intro other
    rw [Tape.moveRight, byteAt_growTo]
    exact h.bytes_eq other
  · rw [Tape.moveRight, address_growTo, h.address_eq]

/-- Moving to the left changes no byte. -/
theorem Represents.moveLeft (h : tape.Represents bytes (address + 1)) :
    ∃ moved, tape.moveLeft = .ok () moved ∧ moved.Represents bytes address := by
  have hWithin : tape.address < tape.cells.size := h.within
  have hAddress := h.address_eq
  refine ⟨{ tape with address }, ?_, ?_, h.bytes_eq, rfl⟩
  · rw [Tape.moveLeft, hAddress]
  · show address < tape.cells.size
    omega

/-- There is nothing to the left of the first address. -/
theorem Represents.moveLeft_zero (h : tape.Represents bytes 0) :
    tape.moveLeft = .error (Fault.ofCause .addressUnderflow) tape :=
  (moveLeft_eq_error_iff tape _ tape).2 ⟨h.address_eq, rfl, rfl⟩

end Tape

end ByteTape
