import Unflatten.Dispatch.Collapse
import Unflatten.Proofs.Dispatch.Counting

/-! # Values that leave the loop

The test of a dispatch loop is looked at before each round with the value that the key has then.
For the numbers that a tracked key is given it has been decided: those among the exits leave the
loop, and all others go on.  That `undefined` leaves the loop is taken for granted; so the
assignments that count as exits do leave it if and only if the test fails for `undefined`, or
nothing assigns it. -/

set_option autoImplicit false

namespace Unflatten

namespace Tracking

/-- The test of the loop of a key. -/
def loopTest (store : Store) (key : DispatchKey) : Slot :=
  match store.shape? (some key.loop) with
  | some (.loop _ _ condition _ _) => condition
  | _ => none

/-- What the test says if the key has a value. -/
def testFor (store : Store) (key : DispatchKey) (value : Value) : Except EvalError Bool :=
  evaluateCondition store (Environment.bind [] key.name value) (loopTest store key)

/-- The test is decided and fails. -/
def Leaves (store : Store) (key : DispatchKey) (value : Value) : Prop :=
  testFor store key value = .ok false

/-- The value that a statement gives the key. -/
def assignedValue? (store : Store) (key : DispatchKey) (statement : Slot) : Option Value :=
  if store.isKeyExit statement key.name then some .undefined
  else (store.keyValue? statement key.name).map Value.ofInt

/-- After a statement the loop is left. -/
def LeavesBy (store : Store) (key : DispatchKey) (statement : Slot) : Prop :=
  ∃ value, assignedValue? store key statement = some value ∧ Leaves store key value

section Exits
variable {store : Store} {frame : Frame} {values exits : List Int} {value : Int}

/-- The exits among some values are those for which the test fails, and the test is decided for
all of them. -/
theorem exitValues_spec (tested : exitValues store frame values = .ok exits) :
    (∀ value ∈ exits, value ∈ values ∧
      evaluateCondition store (Environment.bind [] frame.name (Value.ofInt value))
        frame.condition = .ok false) ∧
    ∀ value ∈ values, value ∉ exits →
      evaluateCondition store (Environment.bind [] frame.name (Value.ofInt value))
        frame.condition = .ok true := by
  induction values generalizing exits with
  | nil =>
    cases tested
    exact ⟨List.forall_mem_nil _, List.forall_mem_nil _⟩
  | cons first rest ih =>
    rw [exitValues] at tested
    cases decided : evaluateCondition store (Environment.bind [] frame.name (Value.ofInt first))
        frame.condition with
    | error cause =>
      rw [decided] at tested
      cases tested
    | ok holds =>
      rw [decided] at tested
      simp only at tested
      cases others : exitValues store frame rest with
      | error obstacle =>
        rw [others] at tested
        cases tested
      | ok later =>
        rw [others] at tested
        have kept : (if holds then later else first :: later) = exits := Except.ok.inj tested
        subst kept
        obtain ⟨leave, stay⟩ := ih others
        cases holds with
        | true =>
          refine ⟨fun value member => ?_, fun value member outside => ?_⟩
          · exact ⟨List.mem_cons_of_mem first (leave value member).1, (leave value member).2⟩
          · rcases List.mem_cons.mp member with rfl | deeper
            · exact decided
            · exact stay value deeper outside
        | false =>
          rw [if_neg Bool.false_ne_true]
          refine ⟨fun value member => ?_, fun value member outside => ?_⟩
          · rcases List.mem_cons.mp member with rfl | deeper
            · exact ⟨List.mem_cons_self, decided⟩
            · exact ⟨List.mem_cons_of_mem first (leave value deeper).1, (leave value deeper).2⟩
          · rw [List.mem_cons, not_or] at outside
            rcases List.mem_cons.mp member with rfl | deeper
            · exact absurd rfl outside.1
            · exact stay value deeper outside.2

end Exits

section Track
variable {store : Store} {root : NodeId} {key : DispatchKey} {tracked : Tracked} {statement : Slot}

/-- The test is decided for every value that is counted. -/
theorem track_tests (tracks : track store root key = .ok tracked) :
    (∀ value ∈ tracked.exits, value ∈ tracked.histogram ∧ Leaves store key (.ofInt value)) ∧
    ∀ value ∈ tracked.histogram, value ∉ tracked.exits →
      testFor store key (.ofInt value) = .ok true := by
  obtain ⟨found, framed, -, -, tested, -⟩ := track_spec tracks
  obtain ⟨kind, initializer, incrementor, body, shaped, named, -⟩ := frame_spec framed
  have sameTest : loopTest store key = found.condition := by rw [loopTest, shaped]
  obtain ⟨leave, stay⟩ := exitValues_spec tested
  unfold Leaves testFor
  rw [sameTest, ← named]
  refine ⟨fun value member => ?_, fun value member outside => ?_⟩
  · exact ⟨Std.TreeMap.mem_keys.mp (leave value member).1, (leave value member).2⟩
  · exact stay value (Std.TreeMap.mem_keys.mpr member) outside

/-- A statement that counts as an exit leaves the loop, unless it assigns `undefined`. -/
theorem leavesBy_of_isExitAssignment (tracks : track store root key = .ok tracked)
    (isExit : Collapse.isExitAssignment store (Expansion.counted key tracked) statement = true)
    (defined : store.isKeyExit statement key.name = false) : LeavesBy store key statement := by
  unfold Collapse.isExitAssignment at isExit
  rw [show (Expansion.counted key tracked).name = key.name from rfl, defined, Bool.false_or,
    Option.any_eq_true] at isExit
  obtain ⟨value, assigned, member⟩ := isExit
  refine ⟨.ofInt value, ?_, ((track_tests tracks).1 value (List.contains_iff_mem.mp member)).2⟩
  rw [assignedValue?, defined, assigned]
  rfl

theorem leavesBy_undefined (undefined_ : store.isKeyExit statement key.name = true) :
    LeavesBy store key statement ↔ Leaves store key .undefined := by
  unfold LeavesBy assignedValue?
  rw [if_pos undefined_]
  constructor
  · rintro ⟨value, same, leaves⟩
    cases same
    exact leaves
  · intro leaves
    exact ⟨.undefined, rfl, leaves⟩

/-- The values that are counted are told apart by the test: it fails for the exits and holds for
the others.  All statements of the dispatcher that count as exits leave the loop exactly if
`undefined` leaves it, where it is assigned. -/
theorem exits_leave (tracks : track store root key = .ok tracked) :
    (∀ value ∈ tracked.exits, value ∈ tracked.histogram ∧ Leaves store key (.ofInt value)) ∧
      (∀ value ∈ tracked.histogram, value ∉ tracked.exits →
        testFor store key (.ofInt value) = .ok true) ∧
      ((∀ statement ∈ store.descendants (key.dispatcher? store),
          Collapse.isExitAssignment store (Expansion.counted key tracked) (some statement) = true →
            LeavesBy store key (some statement)) ↔
        ((∃ statement ∈ store.descendants (key.dispatcher? store),
          store.isKeyExit (some statement) key.name = true) → Leaves store key .undefined)) := by
  obtain ⟨leave, stay⟩ := track_tests tracks
  refine ⟨leave, stay, fun every => ?_, fun undefinedLeaves => ?_⟩
  · rintro ⟨statement, inside, undefined_⟩
    refine (leavesBy_undefined undefined_).mp (every statement inside ?_)
    rw [Collapse.isExitAssignment, show (Expansion.counted key tracked).name = key.name from rfl,
      undefined_, Bool.true_or]
  · intro statement inside isExit
    cases defined : store.isKeyExit (some statement) key.name with
    | true => exact (leavesBy_undefined defined).mpr (undefinedLeaves ⟨statement, inside, defined⟩)
    | false => exact leavesBy_of_isExitAssignment tracks isExit defined

end Track

/-! ## A loop without a test -/

/-- `for (; s !== undefined;) { switch (s) { case 0: s = undefined; break; } }`, or the same
without the test. -/
def onlyExit (tested : Bool) : Store := ⟨#[
  ⟨.file default [some 1], .none, 0, 0, none⟩,
  ⟨.loop .forLoop none (if tested then some 12 else none) none (some 2), .none, 0, 0, some 0⟩,
  ⟨.block [some 3], .none, 0, 0, some 1⟩,
  ⟨.switch (some 4) [some 5], .none, 0, 0, some 2⟩,
  ⟨.identifier "s", .none, 0, 0, some 3⟩,
  ⟨.clause false (some 6) [some 7, some 11], .none, 0, 0, some 3⟩,
  ⟨.literal .number "0" (some 0.0), .none, 0, 0, some 5⟩,
  ⟨.expressionStatement (some 8), .none, 0, 0, some 5⟩,
  ⟨.binary (some 9) .equals (some 10), .none, 0, 0, some 7⟩,
  ⟨.identifier "s", .none, 0, 0, some 8⟩,
  ⟨.identifier "undefined", .none, 0, 0, some 8⟩,
  ⟨.jump .breaks none, .none, 0, 0, some 5⟩,
  ⟨.binary (some 13) .exclamationEqualsEquals (some 14), .none, 0, 0, some 1⟩,
  ⟨.identifier "s", .none, 0, 0, some 12⟩,
  ⟨.identifier "undefined", .none, 0, 0, some 12⟩]⟩

/-- The key of the loop, as it is found. -/
def onlyExitKey : DispatchKey := ⟨"s", 0, 1, none, 0, 0, [], ∅, [], none, false⟩

/-- The start is all that is counted. -/
def onlyExitTracked : Tracked := ⟨Std.TreeMap.empty.insert 0 1, []⟩

/-- With the test, `undefined` leaves the loop. -/
theorem tested_exit_leaves :
    track (onlyExit true) 0 onlyExitKey = .ok onlyExitTracked ∧
      ∀ statement ∈ (onlyExit true).descendants (onlyExitKey.dispatcher? (onlyExit true)),
        Collapse.isExitAssignment (onlyExit true) (Expansion.counted onlyExitKey onlyExitTracked)
          (some statement) = true → LeavesBy (onlyExit true) onlyExitKey (some statement) := by
  have tracks : track (onlyExit true) 0 onlyExitKey = .ok onlyExitTracked := rfl
  refine ⟨tracks, (exits_leave tracks).2.2.mpr fun _ => ?_⟩
  show testFor (onlyExit true) onlyExitKey .undefined = .ok false
  decide

/-- Without it the key is tracked just so, and `undefined` stays in the loop. -/
theorem untested_exit_stays :
    track (onlyExit false) 0 onlyExitKey = .ok onlyExitTracked ∧
      7 ∈ (onlyExit false).descendants (onlyExitKey.dispatcher? (onlyExit false)) ∧
      (onlyExit false).isKeyExit (some 7) "s" = true ∧
      testFor (onlyExit false) onlyExitKey .undefined = .ok true := by
  refine ⟨rfl, ?_, ?_, ?_⟩
  · decide
  · decide
  · rfl

end Tracking

end Unflatten
