import PageScript.Value.Arithmetic

/-! Arithmetic on numbers. It gives numbers or ends with one of a few faults,
and what it gives depends on the operator: a quotient is always a double. A
comparison gives a truth value. -/
namespace PageScript

section values

variable {a b : Value} {m n : Number} {i j : Int}

theorem number?_of_count? (h : a.count? = some i) : a.number? = some (.int i) := by
  cases a with
  | bool | int =>
      cases h
      rfl
  | _ => cases h

/-- Numbers are added as whole numbers if both are whole, and otherwise as
doubles. -/
theorem add_of_numbers (ha : a.number? = some m) (hb : b.number? = some n) :
    a.add b = m.combine (· + ·) (· + ·) n := by
  cases a with
  | bool | int | float => simp only [Value.add, ha, hb]
  | _ => cases ha

/-- Numbers are subtracted as whole numbers if both are whole, and otherwise as
doubles. -/
theorem sub_of_numbers (ha : a.number? = some m) (hb : b.number? = some n) :
    a.sub b = m.combine (· - ·) (· - ·) n := by
  simp only [Value.sub, ha, hb]

/-- Numbers are multiplied as whole numbers if both are whole, and otherwise as
doubles. -/
theorem mul_of_numbers (ha : a.number? = some m) (hb : b.number? = some n) :
    a.mul b = m.combine (· * ·) (· * ·) n := by
  simp only [Value.mul, ha, hb]

theorem div_of_numbers (ha : a.number? = some m) (hb : b.number? = some n) :
    a.div b = m.divide n := by
  simp only [Value.div, ha, hb]

end values

/-- The faults of arithmetic on numbers: a zero divisor, and an integer or a
quotient beyond all doubles. -/
def numericFaults : List ArithmeticFault :=
  [.divisionByZero, .doubleDivisionByZero, .quotientTooLarge, .integerTooLarge]

/-- A value of this sort, or a fault of arithmetic on numbers. -/
def Delivers (fits : Value → Prop) : Except ArithmeticFault Value → Prop
  | .ok value => fits value
  | .error cause => cause ∈ numericFaults

def IsNumber (value : Value) : Prop := value.number?.isSome = true

def IsDouble (value : Value) : Prop := ∃ x, value = .float x

theorem Delivers.mono {fits others : Value → Prop} {result : Except ArithmeticFault Value}
    (h : Delivers fits result) (hMono : ∀ value, fits value → others value) :
    Delivers others result := by
  cases result with
  | ok value => exact hMono value h
  | error cause => exact h

theorem IsDouble.isNumber {value : Value} (h : IsDouble value) : IsNumber value := by
  obtain ⟨x, rfl⟩ := h
  rfl

/-- A number cannot be taken for a double only if it is an integer that is too
large. -/
theorem toFloat_error {n : Number} {cause : ArithmeticFault} (h : n.toFloat = .error cause) :
    cause = .integerTooLarge := by
  cases n with
  | int i =>
      cases hDouble : Double.ofInt? i with
      | none =>
          simp only [Number.toFloat, hDouble, Except.error.injEq] at h
          exact h.symm
      | some x => simp [Number.toFloat, hDouble] at h
  | float x => cases h

/-- Both operands as doubles, then an operation on doubles. -/
theorem delivers_of_doubles (m n : Number) {next : Float → Float → Except ArithmeticFault Value}
    (hNext : ∀ x y, Delivers IsDouble (next x y)) :
    Delivers IsDouble (m.toFloat >>= fun x => n.toFloat >>= fun y => next x y) := by
  cases hLeft : m.toFloat with
  | error cause =>
      cases toFloat_error hLeft
      exact List.mem_of_elem_eq_true rfl
  | ok x =>
      cases hRight : n.toFloat with
      | error cause =>
          cases toFloat_error hRight
          exact List.mem_of_elem_eq_true rfl
      | ok y => exact hNext x y

/-- Numbers combined by whatever operation come to a number, or to a fault. -/
theorem delivers_combine (whole : Int → Int → Int) (double : Float → Float → Float)
    (m n : Number) :
    Delivers IsNumber (m.combine whole double n) := by
  have hDoubles : ∀ x y : Float, Delivers IsDouble (.ok (.float (double x y))) :=
    fun x y => ⟨double x y, rfl⟩
  cases m with
  | int i =>
      cases n with
      | int j => exact rfl
      | float y =>
          exact (delivers_of_doubles (.int i) (.float y) hDoubles).mono fun _ h => h.isNumber
  | float x => exact (delivers_of_doubles (.float x) n hDoubles).mono fun _ h => h.isNumber

/-- A quotient is a double, whatever is divided. -/
theorem delivers_divide (m n : Number) : Delivers IsDouble (m.divide n) := by
  have hDoubles : ∀ x y : Float, Delivers IsDouble (do
      if y == 0 then throw .doubleDivisionByZero
      return .float (x / y)) := by
    intro x y
    by_cases hZero : (y == 0) = true
    · simp only [hZero]
      exact List.mem_of_elem_eq_true rfl
    · simp only [hZero]
      exact ⟨_, rfl⟩
  cases m with
  | int i =>
      cases n with
      | int j =>
          rw [Number.divide]
          split
          · exact List.mem_of_elem_eq_true rfl
          split
          · exact ⟨_, rfl⟩
          · exact List.mem_of_elem_eq_true rfl
      | float y => exact delivers_of_doubles (.int i) (.float y) hDoubles
  | float x => exact delivers_of_doubles (.float x) n hDoubles

/-- A quotient is a double, whatever is divided. -/
theorem isDouble_of_div {a b value : Value} (h : a.div b = .ok value) : IsDouble value := by
  cases ha : a.number? with
  | none => simp [Value.div, ha] at h
  | some m =>
      cases hb : b.number? with
      | none => simp [Value.div, ha, hb] at h
      | some n =>
          have hDelivers := delivers_divide m n
          rwa [← div_of_numbers ha hb, h] at hDelivers

mutual

/-- A comparison that has a result is true or false. -/
theorem exists_of_comparison {operator : String} {holds : Ordering → Bool} {value : Value}
    (a b : Value) (h : Value.comparison operator holds a b = .ok value) :
    ∃ truth, value = .bool truth := by
  unfold Value.comparison at h
  split at h
  · exact exists_of_listComparison _ _ h
  · split at h
    · cases h
      exact ⟨_, rfl⟩
    · cases h
termination_by sizeOf a

/-- A comparison of lists gives a truth value. -/
theorem exists_of_listComparison {operator : String} {holds : Ordering → Bool} {value : Value}
    (xs ys : List Value) (h : Value.listComparison operator holds xs ys = .ok value) :
    ∃ truth, value = .bool truth := by
  unfold Value.listComparison at h
  split at h
  · cases h
    exact ⟨_, rfl⟩
  · cases h
    exact ⟨_, rfl⟩
  · cases h
    exact ⟨_, rfl⟩
  · split at h
    · exact exists_of_listComparison _ _ h
    · exact exists_of_comparison _ _ h
termination_by sizeOf xs

end

end PageScript
