import ByteTape.Proofs.UnboundedTape

/-!
# Sequences of operations on a tape

A tape that makes its cells as they are needed is compared with one that has a byte at every address
from the beginning. Whatever is done to both, they stand at the same address, hold the same bytes
and refuse the same moves. The cells made are exactly those up to the furthest address that was
stood at or grown to.
-/

namespace ByteTape

namespace Tape

/-- What can be done to a tape. -/
inductive Operation where
  /-- Add one to the current cell. -/
  | increment
  /-- Subtract one from the current cell. -/
  | decrement
  /-- Move to the next cell. -/
  | moveRight
  /-- Move to the previous cell. -/
  | moveLeft
  /-- Store a byte in the current cell. -/
  | write (value : UInt8)
  /-- Make all cells up to an address. -/
  | growTo (address : Nat)
  deriving DecidableEq

/-- Perform an operation. -/
def perform (tape : Tape) : Operation → EStateM.Result Fault Tape Unit
  | .increment => .ok () tape.increment
  | .decrement => .ok () tape.decrement
  | .moveRight => .ok () tape.moveRight
  | .moveLeft => tape.moveLeft
  | .write value => .ok () (tape.write value)
  | .growTo address => .ok () (tape.growTo address)

/-- The tape that an operation leaves, also where it failed. -/
def after (tape : Tape) (operation : Operation) : Tape :=
  match tape.perform operation with
  | .ok _ next => next
  | .error _ next => next

/-- The tape after a sequence of operations. -/
def afterAll (tape : Tape) (operations : List Operation) : Tape :=
  operations.foldl after tape

end Tape

/-- A byte for every address and a current address. -/
structure EndlessTape where
  /-- The bytes at all addresses. -/
  bytes : Nat → UInt8
  /-- The current address. -/
  address : Nat

namespace EndlessTape

/-- The endless tape of zeros, at its first address. -/
def zeros : EndlessTape :=
  ⟨fun _ => 0, 0⟩

/-- Store a byte at the current address. -/
def store (endless : EndlessTape) (value : UInt8) : EndlessTape :=
  { endless with bytes := storeByte endless.bytes endless.address value }

/-- Perform an operation, refused where it would go below the first address. There is nothing to
grow. -/
def perform? (endless : EndlessTape) : Tape.Operation → Option EndlessTape
  | .increment => some (endless.store (endless.bytes endless.address + 1))
  | .decrement => some (endless.store (endless.bytes endless.address - 1))
  | .moveRight => some { endless with address := endless.address + 1 }
  | .moveLeft =>
    match endless.address with
    | 0 => none
    | previous + 1 => some { endless with address := previous }
  | .write value => some (endless.store value)
  | .growTo _ => some endless

/-- The endless tape after an operation, which is the same if the operation was refused. -/
def after (endless : EndlessTape) (operation : Tape.Operation) : EndlessTape :=
  (endless.perform? operation).getD endless

/-- The endless tape after a sequence of operations. -/
def afterAll (endless : EndlessTape) (operations : List Tape.Operation) : EndlessTape :=
  operations.foldl after endless

/-- The addresses an operation touches: where the tape stands after it, and how far it is to
grow. -/
def touchedBy (endless : EndlessTape) (operation : Tape.Operation) : List Nat :=
  match operation with
  | .growTo address => [endless.address, address]
  | _ => [(endless.after operation).address]

/-- The addresses that a sequence of operations touches. -/
def touched (endless : EndlessTape) : List Tape.Operation → List Nat
  | [] => []
  | operation :: rest => endless.touchedBy operation ++ (endless.after operation).touched rest

end EndlessTape

namespace Tape

/-- A tape does what an endless tape does with cells up to a furthest address. -/
structure Implements (tape : Tape) (endless : EndlessTape) (furthest : Nat) : Prop where
  /-- Bytes and address are the same. -/
  represents : tape.Represents endless.bytes endless.address
  /-- Cells have been made up to the furthest address and no further. -/
  size_eq : tape.cells.size = furthest + 1

/-- A fresh tape does what an endless tape of zeros does. -/
theorem implements_zeros : blank.Implements EndlessTape.zeros 0 :=
  ⟨represents_blank, rfl⟩

variable {tape : Tape} {endless : EndlessTape} {furthest : Nat}

/-- The current address is not beyond the furthest one. -/
theorem Implements.address_le (h : tape.Implements endless furthest) :
    endless.address ≤ furthest := by
  have hWithin : tape.address < tape.cells.size := h.represents.within
  have hAddress := h.represents.address_eq
  have hSize := h.size_eq
  omega

/-- Storing a byte makes no cell. -/
theorem Implements.store (h : tape.Implements endless furthest) (value : UInt8) :
    (tape.write value).Implements (endless.store value) (max furthest endless.address) := by
  refine ⟨h.represents.write value, ?_⟩
  rw [size_cells_write, h.size_eq, Nat.max_eq_left h.address_le]

/-- Behind the first address a move to the left succeeds and changes the address only. -/
theorem moveLeft_of_address_eq {previous : Nat} (h : tape.address = previous + 1) :
    tape.moveLeft = .ok () { tape with address := previous } := by
  rw [Tape.moveLeft, h]

/-- A move to the left makes no cell; at the first address it leaves everything alone. -/
theorem Implements.moveLeft (h : tape.Implements endless furthest) :
    (tape.after .moveLeft).Implements (endless.after .moveLeft)
      (max furthest (endless.after .moveLeft).address) := by
  have hLe := h.address_le
  obtain ⟨bytes, address⟩ := endless
  dsimp only at hLe
  cases address with
  | zero =>
    rw [after, perform, h.represents.moveLeft_zero]
    refine ⟨h.represents, ?_⟩
    show tape.cells.size = max furthest 0 + 1
    rw [h.size_eq, Nat.max_zero]
  | succ previous =>
    obtain ⟨moved, hMoved, hRepresents⟩ := h.represents.moveLeft
    rw [moveLeft_of_address_eq h.represents.address_eq] at hMoved
    injection hMoved with _ hMoved
    subst hMoved
    rw [after, perform, moveLeft_of_address_eq h.represents.address_eq]
    refine ⟨hRepresents, ?_⟩
    show tape.cells.size = max furthest previous + 1
    rw [h.size_eq]
    omega

/-- Every operation is followed, and the cells made reach as far as the addresses touched. -/
theorem Implements.after (h : tape.Implements endless furthest) (operation : Operation) :
    (tape.after operation).Implements (endless.after operation)
      ((endless.touchedBy operation).foldl max furthest) := by
  cases operation with
  | increment =>
    show (tape.write (tape.read + 1)).Implements _ _
    rw [h.represents.read_eq]
    exact h.store _
  | decrement =>
    show (tape.write (tape.read - 1)).Implements _ _
    rw [h.represents.read_eq]
    exact h.store _
  | moveRight =>
    refine ⟨h.represents.moveRight, ?_⟩
    show (tape.growTo (tape.address + 1)).cells.size = max furthest (endless.address + 1) + 1
    rw [size_cells_growTo, h.size_eq, h.represents.address_eq]
    omega
  | moveLeft => exact h.moveLeft
  | write value => exact h.store value
  | growTo address =>
    have hLe := h.address_le
    refine ⟨h.represents.growTo address, ?_⟩
    show (tape.growTo address).cells.size = max (max furthest endless.address) address + 1
    rw [size_cells_growTo, h.size_eq]
    omega

/-- Every sequence of operations is followed. -/
theorem Implements.afterAll (h : tape.Implements endless furthest) (operations : List Operation) :
    (tape.afterAll operations).Implements (endless.afterAll operations)
      ((endless.touched operations).foldl max furthest) := by
  induction operations generalizing tape endless furthest with
  | nil => exact h
  | cons operation rest ih =>
    have hRest := ih (h.after operation)
    rwa [← List.foldl_append] at hRest

/-- Only a move to the left fails, only at the first address, and it leaves the tape as it was. -/
theorem Implements.perform_eq_error_iff (h : tape.Implements endless furthest)
    (operation : Operation) (fault : Fault) (left : Tape) :
    tape.perform operation = .error fault left ↔ operation = .moveLeft ∧ endless.address = 0 ∧
      fault = Fault.ofCause .addressUnderflow ∧ left = tape := by
  cases operation with
  | moveLeft =>
    rw [perform, moveLeft_eq_error_iff, h.represents.address_eq, eq_comm (a := fault),
      eq_comm (a := left)]
    simp only [true_and]
  | _ => simp only [perform, reduceCtorEq, false_and]

/-- A cell that has been made holds the byte at its address. -/
theorem getElem?_cells {index : Nat} (h : index < tape.cells.size) :
    tape.cells[index]? = some (tape.byteAt index) := by
  simp [byteAt, Array.getD, h]

/-- Where no cell has been made the byte is zero. -/
theorem byteAt_of_size_le {index : Nat} (h : tape.cells.size ≤ index) : tape.byteAt index = 0 := by
  have hOutside : ¬ index < tape.cells.size := Nat.not_lt_of_le h
  simp [byteAt, Array.getD, hOutside]

/-- A tape that grows does what an endless tape of zeros does. After any operations both stand at
the same address; only a move to the left of the first address fails, and then it changes nothing.
The cells made are those up to the furthest address touched: each holds the byte of the endless
tape, which is zero from there on. The current cell is among them, and its byte is read. -/
theorem afterAll_follows_endless (operations : List Operation) :
    let tape := blank.afterAll operations
    let endless := EndlessTape.zeros.afterAll operations
    tape.address = endless.address ∧
      (∀ operation fault left, tape.perform operation = .error fault left ↔
        operation = .moveLeft ∧ endless.address = 0 ∧
          fault = Fault.ofCause .addressUnderflow ∧ left = tape) ∧
      (endless.address = 0 → blank.afterAll (operations ++ [.moveLeft]) = tape) ∧
      tape.cells.size = 1 + (EndlessTape.zeros.touched operations).foldl max 0 ∧
      (∀ index < tape.cells.size, tape.cells[index]? = some (endless.bytes index)) ∧
      (∀ index, tape.cells.size ≤ index → endless.bytes index = 0) ∧
      tape.address < tape.cells.size ∧
      tape.read = endless.bytes endless.address := by
  intro tape endless
  have h : tape.Implements endless _ := implements_zeros.afterAll operations
  have hFails := h.perform_eq_error_iff
  have hBytes := h.represents.bytes_eq
  refine ⟨h.represents.address_eq, hFails, ?_, ?_, ?_, ?_, h.represents.within,
    h.represents.read_eq⟩
  · intro hFirst
    have hUnchanged := (hFails .moveLeft _ tape).2 ⟨rfl, hFirst, rfl, rfl⟩
    rw [afterAll, List.foldl_append]
    show tape.after .moveLeft = tape
    rw [Tape.after, hUnchanged]
  · rw [h.size_eq, Nat.add_comm]
  · intro index hIndex
    rw [getElem?_cells hIndex, hBytes]
  · intro index hIndex
    rw [← hBytes, byteAt_of_size_le hIndex]

/-- Growing ahead, counting below zero, and moving back and forth: cells are made up to the address
grown to, and the move to the left of the first address is without effect. -/
theorem afterAll_follows_endless_grown :
    let operations : List Operation :=
      [.moveLeft, .decrement, .growTo 3, .moveRight, .write 7, .moveRight, .moveLeft, .moveLeft]
    let tape := blank.afterAll operations
    tape.cells = #[255, 7, 0, 0] ∧ tape.address = 0 ∧
      EndlessTape.zeros.touched operations = [0, 0, 0, 3, 1, 1, 2, 1, 0] ∧
      tape.cells[1]? = some ((EndlessTape.zeros.afterAll operations).bytes 1) ∧
      (EndlessTape.zeros.afterAll operations).bytes 4 = 0 ∧
      blank.afterAll (operations ++ [.moveLeft]) = tape := by
  intro operations tape
  have hCells : tape.cells = #[255, 7, 0, 0] := by decide +kernel
  have hAddress : tape.address = 0 := by decide +kernel
  have hSize : (blank.afterAll operations).cells.size = 4 := congrArg Array.size hCells
  obtain ⟨hSame, -, hStays, -, hInside, hBeyond, -⟩ := afterAll_follows_endless operations
  exact ⟨hCells, hAddress, by decide +kernel, hInside 1 (by omega), hBeyond 4 (by omega),
    hStays (hSame ▸ hAddress)⟩

end Tape

end ByteTape
