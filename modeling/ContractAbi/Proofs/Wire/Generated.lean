import ContractAbi.Code.Value
import ContractAbi.Proofs.Wire.Reading

/-!
# What generated code reads

Generated code calls one method of the stack for each result, and a contract that is seen through
its model reads by category. Both take the same entries and give out the same values, but for
integers that are not as wide as the type that holds them: their methods check the limits of that
type, and not those of the category. So generated code accepts numbers for which there is no room in
the category (`Category.Overlooks`), and on all other entries the two agree
(`generated_agrees_iff`).
-/

namespace ContractAbi

open Binding (Field Query)

/-- The numbers that the type of an integer of so many bits holds in generated code. -/
def HostRange (bits : Nat) (signed : Bool) (v : Int) : Prop :=
  if bits ≤ Category.nativeBits then InRange Category.nativeBits signed v else signed ∨ 0 ≤ v

/-- The entry is a number that the type of the category holds, but that is out of range. -/
inductive Category.Overlooks : Category → Option WireValue → Prop
  | integer {bits : Nat} {signed : Bool} {item : WireValue} {v : Int}
      (number : item.number? = some v) (held : HostRange bits signed v)
      (range : ¬ InRange bits signed v) : Overlooks (.integer bits signed) (some item)

theorem InRange.mono {m n : Nat} {signed : Bool} {v : Int} (le : m ≤ n)
    (range : InRange m signed v) : InRange n signed v := by
  unfold InRange at range ⊢
  cases signed with
  | false =>
    have wide : (2 : Int) ^ m ≤ 2 ^ n := by exact_mod_cast Nat.pow_le_pow_right (by decide) le
    simp only [Bool.false_eq_true, if_false] at range ⊢
    omega
  | true =>
    have wide : (2 : Int) ^ (m - 1) ≤ 2 ^ (n - 1) := by
      exact_mod_cast Nat.pow_le_pow_right (by decide) (by omega)
    simp only [if_true] at range ⊢
    omega

/-- A number of a width is in the range of the type that holds the width. -/
theorem HostRange.of_inRange {bits : Nat} {signed : Bool} {v : Int}
    (range : InRange bits signed v) : HostRange bits signed v := by
  unfold HostRange
  by_cases narrow : bits ≤ Category.nativeBits
  · rw [if_pos narrow]
    exact range.mono narrow
  · rw [if_neg narrow]
    cases signed with
    | true => exact .inl rfl
    | false => exact .inr range.1

namespace Read

variable {c : Category} {s t : Stack} {v : WireValue}

/-- What a method of the stack reads, with its value in wire form. -/
def method? : String → Option (Read WireValue)
  | "read_any" => some any
  | "read_int" => some (toWire <$> int)
  | "read_biguint" => some (toWire <$> natural)
  | "read_u64" => some (toWire <$> u64)
  | "read_i64" => some (toWire <$> i64)
  | "read_bool" => some (toWire <$> bool)
  | "read_address_opt" => some (toWire <$> address)
  | "read_text" => some (toWire <$> text)
  | "read_cell" => some (toWire <$> cell)
  | "read_cell_opt" => some (toWire <$> cellOrNull)
  | _ => none

/-- What generated code reads for a result of the category. -/
def generated : Category → Read WireValue
  | .integer bits signed =>
    if bits ≤ Category.nativeBits then (if signed then toWire <$> i64 else toWire <$> u64)
    else if signed then toWire <$> int else toWire <$> natural
  | c => category c

/-- The reader that is printed for a category is the one that it names. -/
theorem method?_readerMethod (c : Category) : method? (Code.readerMethod c) = some (generated c) := by
  cases c with
  | integer bits signed =>
    simp only [Code.readerMethod, generated]
    split_ifs <;> rfl
  | _ => rfl

theorem map_eq_ok_iff {α β : Type} {x : Read α} {f : α → β} {b : β} :
    (f <$> x) s = .ok b t ↔ ∃ a, x s = .ok a t ∧ f a = b := by
  change EStateM.map f x s = _ ↔ _
  unfold EStateM.map
  cases x s with
  | ok a u =>
    constructor
    · rintro ⟨⟩
      exact ⟨a, rfl, rfl⟩
    · rintro ⟨_, ⟨⟩, rfl⟩
      rfl
  | error e u =>
    constructor
    · rintro ⟨⟩
    · rintro ⟨_, ⟨⟩, _⟩

/-- The entry in front is taken off, and it stands for the number. -/
def TakesNumber (s t : Stack) (n : Int) : Prop :=
  ∃ item, s.items = item :: t.items ∧ t.position = s.position + 1 ∧ item.number? = some n

theorem numbered_eq_ok {p : Nat} {n : Int} :
    numbered s = .ok (p, n) t ↔ p = s.position ∧ TakesNumber s t n := by
  obtain ⟨items, q⟩ := s
  constructor
  · intro read
    cases items with
    | nil => cases read
    | cons item items =>
      cases number : item.number? with
      | some m =>
        rw [numbered_of_some number] at read
        cases read
        exact ⟨rfl, item, rfl, rfl, number⟩
      | none =>
        cases item with
        | int | bool => cases number
        | null | address | cell | slice | text | bytes | tuple => cases read
  · rintro ⟨rfl, item, rfl, position, number⟩
    rw [numbered_of_some number, ← position]

/-- A number that is checked before it is given out. -/
theorem checked_eq_ok {α : Type} [ToWire α] {cond : Int → Prop} [DecidablePred cond] {f : Int → α}
    {e : Expectation} (form : ∀ n, cond n → toWire (f n) = .int n) :
    (toWire <$> (do
      let (p, n) ← numbered
      if cond n then return f n else throw (.outOfRange p e) : Read α)) s = .ok v t ↔
        ∃ n, TakesNumber s t n ∧ cond n ∧ v = .int n := by
  rw [map_eq_ok_iff]
  constructor
  · rintro ⟨a, read, rfl⟩
    obtain ⟨⟨p, n⟩, u, taken, checked⟩ := bind_eq_ok.mp read
    by_cases held : cond n
    · simp only [if_pos held] at checked
      cases checked
      exact ⟨n, (numbered_eq_ok.mp taken).2, held, form n held⟩
    · simp only [if_neg held] at checked
      cases checked
  · rintro ⟨n, taken, held, rfl⟩
    refine ⟨f n, bind_eq_ok.mpr ⟨(s.position, n), t, numbered_eq_ok.mpr ⟨rfl, taken⟩, ?_⟩,
      form n held⟩
    simp only [if_pos held]
    rfl

theorem natural_eq_ok : (toWire <$> natural) s = .ok v t ↔
    ∃ n, TakesNumber s t n ∧ 0 ≤ n ∧ v = .int n :=
  checked_eq_ok fun _ held => congrArg WireValue.int (Int.toNat_of_nonneg held)

/-- A generated reader of 64 bits takes a number of this range. -/
theorem u64_eq_ok : (toWire <$> u64) s = .ok v t ↔
    ∃ n, TakesNumber s t n ∧ InRange 64 false n ∧ v = .int n := by
  have form : ∀ n : Int, 0 ≤ n ∧ n < Bits.limit 64 → toWire (UInt64.ofNat n.toNat) = .int n := by
    rintro n ⟨lower, upper⟩
    have small : n.toNat < 2 ^ 64 := by
      rw [Bits.limit_eq] at upper
      omega
    refine congrArg WireValue.int ?_
    rw [UInt64.toNat_ofNat_of_lt' small, Int.toNat_of_nonneg lower]
  exact checked_eq_ok form

theorem i64_eq_ok : (toWire <$> i64) s = .ok v t ↔
    ∃ n, TakesNumber s t n ∧ InRange 64 true n ∧ v = .int n := by
  have form : ∀ n : Int, Store.fitsSigned n 64 → toWire (Int64.ofInt n) = .int n := by
    rintro n ⟨lower, upper⟩
    exact congrArg WireValue.int (Int64.toInt_ofInt_of_le lower upper)
  have range : ∀ n : Int, Store.fitsSigned n 64 ↔ InRange 64 true n :=
    fun n => fitsSigned_iff (by decide)
  have read := checked_eq_ok (s := s) (t := t) (v := v) (e := .i64) form
  simp only [range] at read
  exact read

theorem int_eq_ok : (toWire <$> int) s = .ok v t ↔ ∃ n, TakesNumber s t n ∧ v = .int n := by
  rw [map_eq_ok_iff]
  constructor
  · rintro ⟨n, read, rfl⟩
    obtain ⟨⟨p, n⟩, u, taken, done⟩ := bind_eq_ok.mp read
    cases done
    exact ⟨n, (numbered_eq_ok.mp taken).2, rfl⟩
  · rintro ⟨n, taken, rfl⟩
    have first := numbered_eq_ok.mpr ⟨rfl, taken⟩
    exact ⟨n, bind_eq_ok.mpr ⟨_, t, first, rfl⟩, rfl⟩

/-- Generated code checks the range of the type of an integer. -/
theorem generated_integer_eq_ok {bits : Nat} {signed : Bool} :
    generated (.integer bits signed) s = .ok v t ↔
      ∃ n, TakesNumber s t n ∧ HostRange bits signed n ∧ v = .int n := by
  unfold generated HostRange
  by_cases narrow : bits ≤ Category.nativeBits
  · simp only [if_pos narrow]
    cases signed with
    | true => exact i64_eq_ok
    | false => exact u64_eq_ok
  · simp only [if_neg narrow]
    cases signed with
    | true =>
      rw [if_pos rfl, int_eq_ok]
      simp
    | false =>
      rw [if_neg Bool.false_ne_true, natural_eq_ok]
      simp

/-- The model checks the range of the category. -/
theorem category_integer_eq_ok {bits : Nat} {signed : Bool} :
    category (.integer bits signed) s = .ok v t ↔
      ∃ n, TakesNumber s t n ∧ InRange bits signed n ∧ v = .int n := by
  rw [category_eq_ok]
  constructor
  · rintro ⟨item, items, position, number, range⟩
    exact ⟨_, ⟨item, items, position, number⟩, range, rfl⟩
  · rintro ⟨n, ⟨item, items, position, number⟩, range, rfl⟩
    exact ⟨item, items, position, .integer number range⟩

/-- The model reads what generated code reads, if that overlooks nothing. -/
theorem category_eq_ok_iff :
    category c s = .ok v t ↔ generated c s = .ok v t ∧ ¬ c.Overlooks s.items.head? := by
  cases c with
  | integer bits signed =>
    rw [category_integer_eq_ok, generated_integer_eq_ok]
    constructor
    · rintro ⟨n, ⟨item, items, position, number⟩, range, rfl⟩
      refine ⟨⟨n, ⟨item, items, position, number⟩, .of_inRange range, rfl⟩, ?_⟩
      rw [items, List.head?_cons]
      rintro ⟨number', -, outside⟩
      rw [number] at number'
      cases number'
      exact outside range
    · rintro ⟨⟨n, ⟨item, items, position, number⟩, held, rfl⟩, kept⟩
      rw [items, List.head?_cons] at kept
      have range : InRange bits signed n := by
        by_contra outside
        exact kept (.integer number held outside)
      exact ⟨n, ⟨item, items, position, number⟩, range, rfl⟩
  | _ => exact (and_iff_left nofun).symm

/-- What is overlooked is read. -/
theorem exists_generated (overlooked : c.Overlooks s.items.head?) :
    ∃ v t, generated c s = .ok v t := by
  obtain ⟨items, p⟩ := s
  cases items with
  | nil => cases overlooked
  | cons item rest =>
    obtain ⟨number, held, -⟩ := overlooked
    exact ⟨_, ⟨rest, p + 1⟩, generated_integer_eq_ok.mpr ⟨_, ⟨item, rfl, rfl, number⟩, held, rfl⟩⟩

end Read

namespace Binding.Query

variable {fs : List Field} {s : Stack} {values : List WireValue}

/-- Reads the fields of a result as generated code does. -/
def readGenerated : List Field → Read (List WireValue)
  | [] => return []
  | f :: fs => do
    let v ← Read.generated f.category
    return v :: (← readGenerated fs)

/-- What the model reads for fields is what generated code reads for them, if at none of them a
number out of range is overlooked. -/
theorem readFields_eq_ok_iff {t : Stack} :
    readFields fs s = .ok values t ↔ readGenerated fs s = .ok values t ∧
      ∀ (i : Nat) (f : Field), fs[i]? = some f → ¬ f.category.Overlooks s.items[i]? := by
  -- By induction on the fields: the first one has the first item, and the others those behind it.
  induction fs generalizing s values with
  | nil => exact (and_iff_left fun i f member => by simp at member).symm
  | cons f fs ih =>
    rw [readFields, readGenerated, bind_eq_ok, bind_eq_ok]
    constructor
    · rintro ⟨v, u, first, others⟩
      obtain ⟨vs, w, rest, done⟩ := bind_eq_ok.mp others
      cases done
      obtain ⟨item, items, -, -⟩ := Read.category_eq_ok.mp first
      obtain ⟨read, kept⟩ := Read.category_eq_ok_iff.mp first
      obtain ⟨readRest, keptRest⟩ := ih.mp rest
      refine ⟨⟨v, u, read, bind_eq_ok.mpr ⟨vs, t, readRest, rfl⟩⟩, ?_⟩
      intro i g member
      cases i with
      | zero =>
        obtain rfl : f = g := by simpa using member
        rwa [← List.head?_eq_getElem?]
      | succ i =>
        rw [items, List.getElem?_cons_succ]
        exact keptRest i g member
    · rintro ⟨⟨v, u, read, others⟩, kept⟩
      obtain ⟨vs, w, readRest, done⟩ := bind_eq_ok.mp others
      cases done
      have first : Read.category f.category s = .ok v u := by
        have here := kept 0 f rfl
        rw [← List.head?_eq_getElem?] at here
        exact Read.category_eq_ok_iff.mpr ⟨read, here⟩
      obtain ⟨item, items, -, -⟩ := Read.category_eq_ok.mp first
      refine ⟨v, u, first, bind_eq_ok.mpr ⟨vs, t, ih.mpr ⟨readRest, ?_⟩, rfl⟩⟩
      intro i g member
      have behind := kept (i + 1) g member
      rwa [items, List.getElem?_cons_succ] at behind

end Binding.Query

/-- What the method that generated code calls gives out and leaves is what the model gives out and
leaves, on exactly the stacks on which it overlooks nothing. So a query has the results that
generated code reads if nothing is overlooked at any of them. -/
theorem Read.generated_agrees_iff (c : Category) (s : Stack) :
    method? (Code.readerMethod c) = some (generated c) ∧
    ((∀ v t, generated c s = .ok v t ↔ category c s = .ok v t) ↔ ¬ c.Overlooks s.items.head?) ∧
    ∀ (q : Query) (items values : List WireValue), q.readResults items = .ok values ↔
      (∃ t, Query.readGenerated q.result.fields (.ofList items) = .ok values t) ∧
        ∀ (i : Nat) (f : Field), q.result.fields[i]? = some f →
          ¬ f.category.Overlooks items[i]? := by
  refine ⟨method?_readerMethod c, ?_, ?_⟩
  · constructor
    · intro agree overlooked
      obtain ⟨v, t, read⟩ := exists_generated overlooked
      exact (category_eq_ok_iff.mp ((agree v t).mp read)).2 overlooked
    · intro kept v t
      rw [category_eq_ok_iff, and_iff_left kept]
  · intro q items values
    have read : q.readResults items = .ok values ↔
        ∃ t, Query.readFields q.result.fields (.ofList items) = .ok values t := by
      unfold Query.readResults
      cases Query.readFields q.result.fields (.ofList items) <;> simp
    simp only [read, Query.readFields_eq_ok_iff]
    exact exists_and_right

/-- A number that takes nine bits is read for one of eight. -/
theorem Read.generated_reads_uint8 :
    Category.ofParameter ⟨none, "amount", "uint8"⟩ = .integer 8 false ∧
      method? (Code.readerMethod (.integer 8 false)) = some (toWire <$> u64) ∧
      (toWire <$> u64 : Read WireValue) (.ofList [.int 256]) = .ok (.int 256) ⟨[], 1⟩ ∧
      category (.integer 8 false) (.ofList [.int 256]) =
        .error (.outOfRange 0 .unsignedInteger) ⟨[], 1⟩ := by
  refine ⟨?_, rfl, rfl, rfl⟩
  decide +kernel

end ContractAbi
