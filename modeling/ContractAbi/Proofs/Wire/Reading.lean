import ContractAbi.Contract.Basic
import ContractAbi.Proofs.Cell.Stores

/-!
# What is read off a stack

`Category.Reads` says which entries are values of a category, and in which form they are given out;
`Category.Misreads` says what is wrong with all other entries. A read of a category gives the one or
the other (`Read.category_eq_ok`, `Read.category_eq_error`), and a read of fields goes on to the
first entry that is not a value of its field (`readFields_eq_ok`, `readFields_eq_error`).
-/

namespace ContractAbi

open Binding (Field Query)

namespace WireValue

/-- The number that an entry stands for. The truth values are -1 and 0. -/
def number? : WireValue → Option Int
  | .int v => some v
  | .bool b => some (if b then -1 else 0)
  | _ => none

/-- The cell that an entry holds. -/
def cell? : WireValue → Option Cell
  | .cell c | .slice c => some c
  | _ => none

end WireValue

/-- The numbers of so many bits, in two's complement if they are signed. -/
def InRange (bits : Nat) (signed : Bool) (v : Int) : Prop :=
  if signed then bits ≠ 0 ∧ -2 ^ (bits - 1) ≤ v ∧ v < 2 ^ (bits - 1) else 0 ≤ v ∧ v < 2 ^ bits

/-- The check of a range is the range. -/
theorem fits_iff {v : Int} {bits : Nat} {signed : Bool} :
    fits v bits signed = true ↔ InRange bits signed v := by
  have half : ∀ n, Bits.size n < bits ↔ bits ≠ 0 ∧ (n : Int) < 2 ^ (bits - 1) := by
    intro n
    have bound : n < 2 ^ (bits - 1) ↔ (n : Int) < 2 ^ (bits - 1) := by exact_mod_cast Iff.rfl
    rw [← bound, ← Bits.size_le_iff]
    omega
  have pos : (0 : Int) < 2 ^ (bits - 1) := by exact_mod_cast Nat.two_pow_pos (bits - 1)
  unfold InRange
  match signed, v with
  | false, .ofNat n =>
    have bound : n < 2 ^ bits ↔ (n : Int) < 2 ^ bits := by exact_mod_cast Iff.rfl
    simp [fits, Bits.size_le_iff, bound]
  | false, .negSucc n => simp [fits]
  | true, .ofNat n =>
    simp only [fits, decide_eq_true_eq, half, Int.ofNat_eq_natCast, if_true]
    omega
  | true, .negSucc n =>
    simp only [fits, decide_eq_true_eq, half, Int.negSucc_eq, if_true]
    omega

/-- The numbers of a width have a two's complement form of it. -/
theorem fitsSigned_iff {v : Int} {bits : Nat} (positive : bits ≠ 0) :
    Store.fitsSigned v bits ↔ InRange bits true v := by
  simp [InRange, Store.fitsSigned, Bits.limit_eq, positive]

namespace Category

/-- What a read of the category asks for. -/
def wanted : Category → Expectation
  | .integer _ _ | .varUInt _ => .int
  | .boolean => .bool
  | .address => .address
  | .text => .text
  | .cell | .slice | .builder => .cell
  | .optional _ => .cellOrNull
  | .either _ _ | .unknown _ => .anyValue

/-- Whether entries of a kind may be values of the category. -/
def takes : Category → WireKind → Bool
  | .integer _ _, kind | .varUInt _, kind | .boolean, kind => kind == .int || kind == .bool
  | .address, kind => kind == .null || kind == .address || kind == .cell || kind == .slice ||
      kind == .text
  | .text, kind => kind == .text || kind == .cell || kind == .slice
  | .cell, kind | .slice, kind | .builder, kind => kind == .cell || kind == .slice
  | .optional _, kind => kind == .null || kind == .cell || kind == .slice
  | .either _ _, _ | .unknown _, _ => true

/-- The entry is a value of the category, which is given out in the form that comes last. -/
inductive Reads : Category → WireValue → WireValue → Prop where
  | integer {bits : Nat} {signed : Bool} {item : WireValue} {v : Int}
      (number : item.number? = some v) (range : InRange bits signed v) :
      Reads (.integer bits signed) item (.int v)
  | varUInt {bound : Nat} {item : WireValue} {v : Int} (number : item.number? = some v)
      (range : 0 ≤ v) : Reads (.varUInt bound) item (.int v)
  | bool (b : Bool) : Reads .boolean (.bool b) (.bool b)
  | boolOfInt (v : Int) : Reads .boolean (.int v) (.bool (decide (v ≠ 0)))
  | noAddress : Reads .address .null .null
  | address (a : Address) : Reads .address (.address a) (.address a)
  | addressOfCell {item : WireValue} {c : Cell} {a : Option Address} (held : item.cell? = some c)
      (read : Address.ofCell c = .ok a) : Reads .address item (toWire a)
  | addressOfText {s : String} {a : Address} (read : Address.parse s = .ok a) :
      Reads .address (.text s) (.address a)
  | text (s : String) : Reads .text (.text s) (.text s)
  | textOfCell {item : WireValue} {c : Cell} {data : List UInt8} {s : String}
      (held : item.cell? = some c) (whole : c.snakeBytes? = some data)
      (read : textOfBytes? data = some s) : Reads .text item (.text s)
  | cell {item : WireValue} {c : Cell} (held : item.cell? = some c) : Reads .cell item (.cell c)
  | slice {item : WireValue} {c : Cell} (held : item.cell? = some c) : Reads .slice item (.cell c)
  | builder {item : WireValue} {c : Cell} (held : item.cell? = some c) :
      Reads .builder item (.cell c)
  | absent (inner : Category) : Reads (.optional inner) .null .null
  | present {inner : Category} {item : WireValue} {c : Cell} (held : item.cell? = some c) :
      Reads (.optional inner) item (.cell c)
  | either (left right : Category) (item : WireValue) : Reads (.either left right) item item
  | unknown (raw : String) (item : WireValue) : Reads (.unknown raw) item item

/-- The entry at the position is missing or is not a value of the category, for the reason that
comes last. -/
inductive Misreads (position : Nat) : Category → Option WireValue → StackError → Prop where
  | missing (category : Category) :
      Misreads position category none (.underflow position category.wanted)
  | mismatch {category : Category} {item : WireValue} (other : category.takes item.kind = false) :
      Misreads position category (some item)
        (.typeMismatch position category.wanted item.kind)
  | integer {bits : Nat} {signed : Bool} {item : WireValue} {v : Int}
      (number : item.number? = some v) (range : ¬ InRange bits signed v) :
      Misreads position (.integer bits signed) (some item)
        (.outOfRange position (.integerOf signed))
  | varUInt {bound : Nat} {item : WireValue} {v : Int} (number : item.number? = some v)
      (range : ¬ 0 ≤ v) :
      Misreads position (.varUInt bound) (some item) (.outOfRange position .unsignedInteger)
  | addressOfCell {item : WireValue} {c : Cell} {e : Address.Fault} (held : item.cell? = some c)
      (read : Address.ofCell c = .error e) :
      Misreads position .address (some item) (.malformed position e.message)
  | addressOfText {s : String} {e : Address.Fault} (read : Address.parse s = .error e) :
      Misreads position .address (some (.text s)) (.malformed position e.message)
  | oddBits {item : WireValue} {c : Cell} (held : item.cell? = some c)
      (odd : c.snakeBytes? = none) :
      Misreads position .text (some item)
        (.malformed position "text cell is not byte-aligned")
  | notUtf8 {item : WireValue} {c : Cell} {data : List UInt8} (held : item.cell? = some c)
      (whole : c.snakeBytes? = some data) (read : textOfBytes? data = none) :
      Misreads position .text (some item) (.malformed position "text is not valid UTF-8")

end Category

namespace Read

variable {c : Category} {item v : WireValue} {items rest : List WireValue} {p : Nat} {s t : Stack}
  {e : StackError}

theorem map_eq_ok {α β : Type} {x : Read α} {f : α → β} {a : α} (read : x s = .ok a t) :
    (f <$> x) s = .ok (f a) t := by
  change EStateM.map f x s = _
  simp only [EStateM.map, read]

theorem map_eq_error {α β : Type} {x : Read α} {f : α → β} (read : x s = .error e t) :
    (f <$> x) s = .error e t := by
  change EStateM.map f x s = _
  simp only [EStateM.map, read]

theorem numbered_of_some {n : Int} (number : item.number? = some n) :
    numbered ⟨item :: rest, p⟩ = .ok (p, n) ⟨rest, p + 1⟩ := by
  cases item <;> simp [WireValue.number?] at number <;> rw [← number] <;> rfl

theorem integer_of_some {bits : Nat} {signed : Bool} {n : Int} (number : item.number? = some n) :
    category (.integer bits signed) ⟨item :: rest, p⟩ =
      (if fits n bits signed then pure (.int n)
      else throw (.outOfRange p (.integerOf signed)) : Read WireValue) ⟨rest, p + 1⟩ := by
  change EStateM.bind numbered _ _ = _
  simp only [EStateM.bind, numbered_of_some number]

theorem natural_of_some {n : Int} (number : item.number? = some n) :
    natural ⟨item :: rest, p⟩ =
      (if 0 ≤ n then pure n.toNat else throw (.outOfRange p .unsignedInteger) : Read Nat)
        ⟨rest, p + 1⟩ := by
  change EStateM.bind numbered _ _ = _
  simp only [EStateM.bind, numbered_of_some number]

theorem address_of_cell {c : Cell} (held : item.cell? = some c) :
    address ⟨item :: rest, p⟩ =
      (match Address.ofCell c with
      | .ok a => pure a
      | .error e => throw (.malformed p e.message) : Read (Option Address)) ⟨rest, p + 1⟩ := by
  cases item <;> simp [WireValue.cell?] at held <;> subst held <;> rfl

theorem address_of_text (text : String) :
    address ⟨.text text :: rest, p⟩ =
      (match Address.parse text with
      | .ok a => pure (some a)
      | .error e => throw (.malformed p e.message) : Read (Option Address)) ⟨rest, p + 1⟩ := by
  cases parsed : Address.parse text <;> simp only [address, bind, EStateM.bind, next, parsed]

theorem text_of_cell {c : Cell} (held : item.cell? = some c) :
    text ⟨item :: rest, p⟩ =
      (match c.snakeBytes? with
      | none => throw (.malformed p "text cell is not byte-aligned")
      | some data =>
        match textOfBytes? data with
        | some read => pure read
        | none => throw (.malformed p "text is not valid UTF-8") : Read String) ⟨rest, p + 1⟩ := by
  cases item <;> simp [WireValue.cell?] at held <;> subst held <;> rfl

theorem category_nil (c : Category) (p : Nat) :
    category c ⟨[], p⟩ = .error (.underflow p c.wanted) ⟨[], p⟩ := by
  cases c <;> rfl

/-- An entry that is a value of the category is given out in its form. -/
theorem category_of_reads (reads : c.Reads item v) :
    category c ⟨item :: rest, p⟩ = .ok v ⟨rest, p + 1⟩ := by
  cases reads with
  | integer number range =>
    rw [integer_of_some number, if_pos (fits_iff.mpr range)]
    rfl
  | @varUInt _ _ n number range =>
    have read : natural ⟨item :: rest, p⟩ = .ok n.toNat ⟨rest, p + 1⟩ := by
      rw [natural_of_some number, if_pos range]
      rfl
    have form : toWire n.toNat = WireValue.int n := congrArg _ (Int.toNat_of_nonneg range)
    rw [← form]
    exact map_eq_ok read
  | bool b => rfl
  | boolOfInt v => rfl
  | noAddress => rfl
  | address a => rfl
  | addressOfCell held read =>
    apply map_eq_ok
    rw [address_of_cell held, read]
    rfl
  | @addressOfText text a read =>
    have found : address ⟨.text text :: rest, p⟩ = .ok (some a) ⟨rest, p + 1⟩ := by
      rw [address_of_text, read]
      rfl
    exact map_eq_ok found
  | text s => rfl
  | textOfCell held whole read =>
    apply map_eq_ok
    rw [text_of_cell held]
    simp only [whole, read]
    rfl
  | cell held | slice held | builder held =>
    cases item <;> simp [WireValue.cell?] at held <;> subst held <;> rfl
  | absent inner => rfl
  | present held => cases item <;> simp [WireValue.cell?] at held <;> subst held <;> rfl
  | either left right => rfl
  | unknown raw => rfl

/-- An entry that is not a value of the category is taken off the stack all the same. -/
theorem category_of_misreads (misreads : c.Misreads p (some item) e) :
    category c ⟨item :: rest, p⟩ = .error e ⟨rest, p + 1⟩ := by
  cases misreads with
  | mismatch other =>
    cases c <;> cases item <;>
      first
      | simp [Category.takes, WireValue.kind] at other; done
      | rfl
  | integer number range =>
    rw [integer_of_some number, if_neg fun fit => range (fits_iff.mp fit)]
    rfl
  | varUInt number range =>
    apply map_eq_error
    rw [natural_of_some number, if_neg range]
    rfl
  | addressOfCell held read =>
    apply map_eq_error
    rw [address_of_cell held, read]
    rfl
  | addressOfText read =>
    apply map_eq_error
    rw [address_of_text, read]
    rfl
  | oddBits held odd =>
    apply map_eq_error
    rw [text_of_cell held, odd]
    rfl
  | notUtf8 held whole read =>
    apply map_eq_error
    rw [text_of_cell held]
    simp only [whole, read]
    rfl

theorem exists_number (kind : (item.kind == .int || item.kind == .bool) = true) :
    ∃ n, item.number? = some n := by
  cases item <;> simp_all [WireValue.kind, WireValue.number?]

theorem exists_cell (kind : (item.kind == .cell || item.kind == .slice) = true) :
    ∃ c, item.cell? = some c := by
  cases item <;> simp_all [WireValue.kind, WireValue.cell?]

theorem reads_or_misreads_addressOfCell {held : Cell} (holds : item.cell? = some held) (p : Nat) :
    (∃ v, Category.address.Reads item v) ∨ ∃ e, Category.address.Misreads p (some item) e := by
  cases read : Address.ofCell held with
  | ok a => exact .inl ⟨_, .addressOfCell holds read⟩
  | error e => exact .inr ⟨_, .addressOfCell holds read⟩

theorem reads_or_misreads_textOfCell {held : Cell} (holds : item.cell? = some held) (p : Nat) :
    (∃ v, Category.text.Reads item v) ∨ ∃ e, Category.text.Misreads p (some item) e := by
  cases whole : held.snakeBytes? with
  | none => exact .inr ⟨_, .oddBits holds whole⟩
  | some data =>
    cases read : textOfBytes? data with
    | none => exact .inr ⟨_, .notUtf8 holds whole read⟩
    | some s => exact .inl ⟨_, .textOfCell holds whole read⟩

/-- Every entry is a value of the category or it is not. -/
theorem reads_or_misreads (c : Category) (item : WireValue) (p : Nat) :
    (∃ v, c.Reads item v) ∨ ∃ e, c.Misreads p (some item) e := by
  -- An item of another kind is a mismatch; of the kinds that are taken, a range or a text may
  -- refuse it.
  by_cases other : c.takes item.kind = false
  · exact .inr ⟨_, .mismatch other⟩
  have taken : c.takes item.kind = true := Bool.eq_true_of_not_eq_false other
  cases c with
  | integer bits signed =>
    obtain ⟨v, number⟩ := exists_number taken
    by_cases range : InRange bits signed v
    · exact .inl ⟨_, .integer number range⟩
    · exact .inr ⟨_, .integer number range⟩
  | varUInt bound =>
    obtain ⟨v, number⟩ := exists_number taken
    by_cases range : 0 ≤ v
    · exact .inl ⟨_, .varUInt number range⟩
    · exact .inr ⟨_, .varUInt number range⟩
  | boolean =>
    cases item with
    | bool b => exact .inl ⟨_, .bool b⟩
    | int v => exact .inl ⟨_, .boolOfInt v⟩
    | _ => cases taken
  | address =>
    cases item with
    | null => exact .inl ⟨_, .noAddress⟩
    | address a => exact .inl ⟨_, .address a⟩
    | cell c => exact reads_or_misreads_addressOfCell rfl p
    | slice c => exact reads_or_misreads_addressOfCell rfl p
    | text s =>
      cases read : Address.parse s with
      | ok a => exact .inl ⟨_, .addressOfText read⟩
      | error e => exact .inr ⟨_, .addressOfText read⟩
    | _ => cases taken
  | text =>
    cases item with
    | text s => exact .inl ⟨_, .text s⟩
    | cell c => exact reads_or_misreads_textOfCell rfl p
    | slice c => exact reads_or_misreads_textOfCell rfl p
    | _ => cases taken
  | cell =>
    obtain ⟨c, held⟩ := exists_cell taken
    exact .inl ⟨_, .cell held⟩
  | slice =>
    obtain ⟨c, held⟩ := exists_cell taken
    exact .inl ⟨_, .slice held⟩
  | builder =>
    obtain ⟨c, held⟩ := exists_cell taken
    exact .inl ⟨_, .builder held⟩
  | optional inner =>
    cases item with
    | null => exact .inl ⟨_, .absent inner⟩
    | cell c => exact .inl ⟨_, .present rfl⟩
    | slice c => exact .inl ⟨_, .present rfl⟩
    | _ => cases taken
  | either left right => exact .inl ⟨_, .either left right item⟩
  | unknown raw => exact .inl ⟨_, .unknown raw item⟩

/-- A category reads one item, and succeeds just where the item is one of its own. -/
theorem category_eq_ok :
    category c s = .ok v t ↔ ∃ item, s.items = item :: t.items ∧ t.position = s.position + 1 ∧
      c.Reads item v := by
  obtain ⟨items, p⟩ := s
  constructor
  · intro read
    cases items with
    | nil =>
      rw [category_nil] at read
      cases read
    | cons item rest =>
      obtain ⟨w, reads⟩ | ⟨e, misreads⟩ := reads_or_misreads c item p
      · rw [category_of_reads reads] at read
        cases read
        exact ⟨item, rfl, rfl, reads⟩
      · rw [category_of_misreads misreads] at read
        cases read
  · rintro ⟨item, rfl, position, reads⟩
    rw [category_of_reads reads, ← position]

/-- A read fails if the entry in front is missing or not a value of the category. -/
theorem category_eq_error :
    (∃ t, category c s = .error e t) ↔ c.Misreads s.position s.items.head? e := by
  obtain ⟨items, p⟩ := s
  cases items with
  | nil =>
    rw [category_nil]
    constructor
    · rintro ⟨t, failed⟩
      cases failed
      exact .missing c
    · rintro ⟨⟩
      exact ⟨_, rfl⟩
  | cons item rest =>
    constructor
    · rintro ⟨t, failed⟩
      obtain ⟨w, reads⟩ | ⟨f, misreads⟩ := reads_or_misreads c item p
      · rw [category_of_reads reads] at failed
        cases failed
      · rw [category_of_misreads misreads] at failed
        cases failed
        exact misreads
    · exact fun misreads => ⟨_, category_of_misreads misreads⟩

end Read

namespace Binding

/-- The entries are values of the fields, place by place, and the values are their forms. There may
be more entries than fields. -/
structure ReadsAll (fields : List Field) (items values : List WireValue) : Prop where
  length_eq : values.length = fields.length
  reads : ∀ (i : Nat) (f : Field), fields[i]? = some f →
    ∃ item v, items[i]? = some item ∧ values[i]? = some v ∧ f.category.Reads item v

/-- The first place at which an entry is missing or not a value of its field has this error. The
places are counted from a position on. -/
def MisreadsFirst (position : Nat) (fields : List Field) (items : List WireValue)
    (e : StackError) : Prop :=
  ∃ (i : Nat) (f : Field), fields[i]? = some f ∧ f.category.Misreads (position + i) items[i]? e ∧
    ∀ (j : Nat) (g : Field), j < i → fields[j]? = some g →
      ∃ item v, items[j]? = some item ∧ g.category.Reads item v

variable {f : Field} {fs : List Field} {item : WireValue} {items values : List WireValue} {p : Nat}
  {s : Stack} {e : StackError}

theorem readsAll_nil : ReadsAll [] items values ↔ values = [] := by
  constructor
  · exact fun all => List.eq_nil_of_length_eq_zero all.length_eq
  · rintro rfl
    exact ⟨rfl, fun i f member => by simp at member⟩

theorem readsAll_cons : ReadsAll (f :: fs) items values ↔
    ∃ item rest v vs, items = item :: rest ∧ values = v :: vs ∧ f.category.Reads item v ∧
      ReadsAll fs rest vs := by
  constructor
  · rintro ⟨length, reads⟩
    obtain ⟨item, v, here, out, first⟩ := reads 0 f rfl
    obtain ⟨rest, rfl⟩ : ∃ rest, items = item :: rest := by
      cases items <;> simp_all
    obtain ⟨vs, rfl⟩ : ∃ vs, values = v :: vs := by
      cases values <;> simp_all
    exact ⟨item, rest, v, vs, rfl, rfl, first, by simpa using length,
      fun i g member => reads (i + 1) g member⟩
  · rintro ⟨item, rest, v, vs, rfl, rfl, first, all⟩
    refine ⟨by simpa using all.length_eq, fun i g member => ?_⟩
    cases i with
    | zero =>
      obtain rfl : f = g := by simpa using member
      exact ⟨item, v, rfl, rfl, first⟩
    | succ i => exact all.reads i g member

theorem misreadsFirst_cons : MisreadsFirst p (f :: fs) items e ↔
    f.category.Misreads p items.head? e ∨
      ∃ item rest v, items = item :: rest ∧ f.category.Reads item v ∧
        MisreadsFirst (p + 1) fs rest e := by
  constructor
  · rintro ⟨i, g, member, misreads, before⟩
    cases i with
    | zero =>
      obtain rfl : f = g := by simpa using member
      rw [← List.head?_eq_getElem?] at misreads
      exact .inl misreads
    | succ i =>
      obtain ⟨item, v, here, reads⟩ := before 0 f (Nat.succ_pos i) rfl
      obtain ⟨rest, rfl⟩ : ∃ rest, items = item :: rest := by
        cases items <;> simp_all
      rw [← Nat.add_assoc, Nat.add_right_comm] at misreads
      exact .inr ⟨item, rest, v, rfl, reads, i, g, member, misreads,
        fun j h less => before (j + 1) h (Nat.succ_lt_succ less)⟩
  · rintro (misreads | ⟨item, rest, v, rfl, reads, i, g, member, misreads, before⟩)
    · rw [List.head?_eq_getElem?] at misreads
      exact ⟨0, f, rfl, misreads, fun j g less => absurd less (Nat.not_lt_zero j)⟩
    · rw [Nat.add_right_comm, Nat.add_assoc] at misreads
      refine ⟨i + 1, g, member, misreads, fun j h less among => ?_⟩
      cases j with
      | zero =>
        obtain rfl : f = h := by simpa using among
        exact ⟨item, v, rfl, reads⟩
      | succ j => exact before j h (Nat.lt_of_succ_lt_succ less) among

/-- Fields read their items one by one. -/
theorem readFields_eq_ok :
    (∃ t, Query.readFields fs s = .ok values t) ↔ ReadsAll fs s.items values := by
  induction fs generalizing s values with
  | nil =>
    rw [readsAll_nil]
    constructor
    · rintro ⟨t, read⟩
      cases read
      rfl
    · rintro rfl
      exact ⟨s, rfl⟩
  | cons f fs ih =>
    rw [readsAll_cons]
    constructor
    · rintro ⟨t, read⟩
      obtain ⟨v, u, first, others⟩ := bind_eq_ok.mp read
      obtain ⟨vs, w, rest, done⟩ := bind_eq_ok.mp others
      cases done
      obtain ⟨item, items, _, reads⟩ := Read.category_eq_ok.mp first
      exact ⟨item, u.items, v, vs, items, rfl, reads, ih.mp ⟨_, rest⟩⟩
    · rintro ⟨item, rest, v, vs, items, rfl, reads, all⟩
      obtain ⟨t, others⟩ := (ih (s := ⟨rest, s.position + 1⟩)).mpr all
      have first : Read.category f.category s = .ok v ⟨rest, s.position + 1⟩ :=
        Read.category_eq_ok.mpr ⟨item, items, rfl, reads⟩
      exact ⟨t, bind_eq_ok.mpr ⟨v, _, first, bind_eq_ok.mpr ⟨vs, t, others, rfl⟩⟩⟩

/-- They fail at the first item that is not one of its field's. -/
theorem readFields_eq_error :
    (∃ t, Query.readFields fs s = .error e t) ↔ MisreadsFirst s.position fs s.items e := by
  induction fs generalizing s with
  | nil =>
    constructor
    · rintro ⟨t, failed⟩
      cases failed
    · rintro ⟨i, f, member, _⟩
      simp at member
  | cons f fs ih =>
    rw [misreadsFirst_cons, ← Read.category_eq_error]
    constructor
    · rintro ⟨t, failed⟩
      obtain first | ⟨v, u, first, others⟩ := bind_eq_error.mp failed
      · exact .inl ⟨t, first⟩
      · obtain ⟨item, items, position, reads⟩ := Read.category_eq_ok.mp first
        obtain rest | ⟨vs, w, _, done⟩ := bind_eq_error.mp others
        · refine .inr ⟨item, u.items, v, items, reads, ?_⟩
          rw [← position]
          exact ih.mp ⟨t, rest⟩
        · cases done
    · rintro (⟨t, failed⟩ | ⟨item, rest, v, items, reads, others⟩)
      · exact ⟨t, bind_eq_error.mpr (.inl failed)⟩
      · obtain ⟨t, failed⟩ := (ih (s := ⟨rest, s.position + 1⟩)).mpr others
        have first : Read.category f.category s = .ok v ⟨rest, s.position + 1⟩ :=
          Read.category_eq_ok.mpr ⟨item, items, rfl, reads⟩
        exact ⟨t, bind_eq_error.mpr (.inr ⟨v, _, first, bind_eq_error.mpr (.inl failed)⟩)⟩

end Binding

end ContractAbi
