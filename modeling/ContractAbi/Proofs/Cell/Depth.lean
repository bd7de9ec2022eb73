import Mathlib.Data.List.Basic
import Mathlib.Data.List.Fold
import ContractAbi.Proofs.Cell.Hashing
import ContractAbi.Proofs.Cell.TextChain

/-!
# The depth of a cell and the height of its tree

The depth of a cell is counted from reference to cell in 16 bits, and nothing keeps a tree from
being higher than such a counter goes. Where it is not, the depth of each of its cells is the height
below it, and that is what is hashed (`hashed_of_height_le`). A counter that is at its end starts
again from zero, so that the count is right in all of a tree just if the tree is no higher than
65535 (`countsDepth_iff`). A text that is long enough makes a higher one
(`not_countsDepth_longText`).
-/

namespace ContractAbi

namespace Cell

mutual

/-- The length of the longest way down from a cell. -/
def height : Cell → Nat
  | ⟨_, refs⟩ => heightOver refs

/-- The height of a cell with these references. -/
def heightOver : List Cell → Nat
  | [] => 0
  | c :: cs => max (height c + 1) (heightOver cs)

end

/-- The number is the largest one of the list, or 0 if there is none. -/
structure IsTop (ns : List Nat) (n : Nat) : Prop where
  bound : ∀ m ∈ ns, m ≤ n
  reached : ns ≠ [] → n ∈ ns
  none : ns = [] → n = 0

/-- The depth of a cell is 0 without references and else one more than the largest depth of its
references. -/
def CountsDepth (c : Cell) : Prop := IsTop (c.refs.map fun r => r.depth.toNat + 1) c.depth.toNat

variable {c r : Cell} {ns : List Nat} {m n : Nat}

namespace IsTop

/-- There is only one largest number. -/
theorem eq (first : IsTop ns m) (second : IsTop ns n) : m = n := by
  cases ns with
  | nil => rw [first.none rfl, second.none rfl]
  | cons k ks =>
    have up := second.bound m (first.reached (List.cons_ne_nil k ks))
    have down := first.bound n (second.reached (List.cons_ne_nil k ks))
    omega

/-- The largest number of a longer list is the larger one of two. -/
theorem cons (rest : IsTop ns n) (m : Nat) : IsTop (m :: ns) (max m n) := by
  refine ⟨?_, ?_, fun empty => absurd empty (List.cons_ne_nil m ns)⟩
  · intro k among
    rcases List.mem_cons.mp among with rfl | later
    · exact Nat.le_max_left k n
    · exact Nat.le_trans (rest.bound k later) (Nat.le_max_right m n)
  · intro _
    by_cases empty : ns = []
    · rw [rest.none empty, Nat.max_eq_left (Nat.zero_le m)]
      exact List.mem_cons_self
    · rcases Nat.le_total m n with above | below
      · rw [Nat.max_eq_right above]
        exact List.mem_cons_of_mem m (rest.reached empty)
      · rw [Nat.max_eq_left below]
        exact List.mem_cons_self

end IsTop

/-! ### What is counted -/

theorem isTop_heightOver (refs : List Cell) :
    IsTop (refs.map fun r => r.height + 1) (heightOver refs) := by
  induction refs with
  | nil => exact ⟨nofun, fun nonempty => absurd rfl nonempty, fun _ => rfl⟩
  | cons c cs ih =>
    rw [List.map_cons, heightOver]
    exact ih.cons _

/-- A cell is one higher than the highest of its references. -/
theorem isTop_height (c : Cell) : IsTop (c.refs.map fun r => r.height + 1) c.height := by
  obtain ⟨bits, refs⟩ := c
  rw [height]
  exact isTop_heightOver refs

/-- References lead down. -/
theorem height_lt_of_mem (among : r ∈ c.refs) : r.height < c.height :=
  (isTop_height c).bound _ (List.mem_map_of_mem among)

theorem height_le_of_reaches {x : Cell} (way : c.Reaches x) : x.height ≤ c.height := by
  induction way with
  | refl => exact Nat.le_refl _
  | tail _ among ih => exact Nat.le_trans (height_lt_of_mem among).le ih

theorem isTop_foldl_max (ns : List Nat) : IsTop ns (ns.foldl max 0) := by
  rw [List.foldl_eq_foldr]
  induction ns with
  | nil => exact ⟨nofun, fun nonempty => absurd rfl nonempty, fun _ => rfl⟩
  | cons n ns ih => exact ih.cons n

/-- The counter of a cell is the largest one of those that come out of its references. -/
theorem isTop_depthOver (refs : List Digest) :
    IsTop (refs.map fun r => (r.depth.toNat + 1) % 65536) (depthOver refs).toNat := by
  have numbers : (depthOver refs).toNat =
      (refs.map fun r => (r.depth.toNat + 1) % 65536).foldl max 0 := by
    rw [List.foldl_map]
    refine (List.foldl_hom UInt16.toNat ?_).symm
    intro d r
    rw [UInt16.toNat_max, UInt16.toNat_add]
    rfl
  rw [numbers]
  exact isTop_foldl_max _

/-- The depth of a cell is the largest counter that comes out of its references. -/
theorem isTop_depth (c : Cell) :
    IsTop (c.refs.map fun r => (r.depth.toNat + 1) % 65536) c.depth.toNat := by
  obtain ⟨bits, refs⟩ := c
  have counted := isTop_depthOver (digests refs)
  rw [digests_eq_map, List.map_map] at counted
  rw [depth, digest, digests_eq_map]
  exact counted

/-! ### Where the count is right -/

/-- A counter goes on from all numbers but the last. -/
theorem countsDepth_iff_refs : c.CountsDepth ↔ ∀ r ∈ c.refs, r.depth.toNat ≠ 65535 := by
  constructor
  · intro counts r among last
    have above := counts.bound _ (List.mem_map_of_mem among)
    have small := c.depth.toNat_lt
    omega
  · intro notLast
    have same : (c.refs.map fun r => (r.depth.toNat + 1) % 65536) =
        c.refs.map fun r => r.depth.toNat + 1 := by
      apply List.map_congr_left
      intro r among
      have small := r.depth.toNat_lt
      have := notLast r among
      omega
    have counted := isTop_depth c
    rwa [same] at counted

/-- In a tree that is not too high the depth is the height. -/
theorem depth_eq_height (low : c.height ≤ 65535) : c.depth.toNat = c.height := by
  induction size : c.height using Nat.strongRecOn generalizing c with
  | ind n ih =>
    have same : (c.refs.map fun r => (r.depth.toNat + 1) % 65536) =
        c.refs.map fun r => r.height + 1 := by
      apply List.map_congr_left
      intro r among
      have lower := height_lt_of_mem among
      have counted := ih r.height (size ▸ lower) (by omega) rfl
      omega
    have counted := isTop_depth c
    rw [same] at counted
    exact size ▸ counted.eq (isTop_height c)

/-- Where all of a tree is counted right, the depth is the height. -/
theorem depth_eq_height_of_countsDepth (counts : ∀ x, c.Reaches x → x.CountsDepth) :
    c.depth.toNat = c.height := by
  induction size : c.height using Nat.strongRecOn generalizing c with
  | ind n ih =>
    have same : (c.refs.map fun r => r.depth.toNat + 1) = c.refs.map fun r => r.height + 1 := by
      apply List.map_congr_left
      intro r among
      have lower := height_lt_of_mem among
      have below : ∀ x, r.Reaches x → x.CountsDepth := fun x way => counts x (.head among way)
      exact congrArg (· + 1) (ih r.height (size ▸ lower) below rfl)
    have counted := counts c .refl
    rw [CountsDepth, same] at counted
    exact size ▸ counted.eq (isTop_height c)

/-- The two bytes of a height, the high one first. -/
def heightBytes (n : Nat) : List UInt8 := [UInt8.ofNat (n / 256), UInt8.ofNat n]

/-- In a tree that is not too high the heights of the references are hashed for each cell. -/
theorem hashed_of_height_le (low : c.height ≤ 65535) : c.hashed =
    UInt8.ofNat c.refs.length :: UInt8.ofNat (c.bits.length / 8 + (c.bits.length + 7) / 8) ::
      (completed c.bits ++ (c.refs.flatMap (fun r => heightBytes r.height) ++
        c.refs.flatMap hash)) := by
  have heights : c.refs.flatMap (fun r => depthBytes r.depth) =
      c.refs.flatMap fun r => heightBytes r.height := by
    refine List.flatMap_congr fun r among => ?_
    have lower := height_lt_of_mem among
    rw [depthBytes, depth_eq_height (by omega), heightBytes]
  rw [hashed_eq, heights]

/-- The depth of a cell is counted right just if no reference of it is at the end of the counter. In
all of a tree it is just if the tree is not too high; and then each depth is a height, and heights
are what is hashed. -/
theorem countsDepth_iff (c : Cell) :
    (c.CountsDepth ↔ ∀ r ∈ c.refs, r.depth.toNat ≠ 65535) ∧
    ((∀ x, c.Reaches x → x.CountsDepth) ↔ c.height ≤ 65535) ∧
    (c.height ≤ 65535 → ∀ x, c.Reaches x → x.depth.toNat = x.height ∧
      x.hashed = UInt8.ofNat x.refs.length ::
        UInt8.ofNat (x.bits.length / 8 + (x.bits.length + 7) / 8) ::
          (completed x.bits ++ (x.refs.flatMap (fun r => heightBytes r.height) ++
            x.refs.flatMap hash))) := by
  refine ⟨countsDepth_iff_refs, ⟨?_, ?_⟩, ?_⟩
  · intro counts
    have small := c.depth.toNat_lt
    rw [← depth_eq_height_of_countsDepth counts]
    omega
  · intro low x way
    refine countsDepth_iff_refs.mpr fun r among => ?_
    have lower := height_lt_of_mem among
    have within := height_le_of_reaches way
    rw [depth_eq_height (by omega)]
    omega
  · intro low x way
    have within := Nat.le_trans (height_le_of_reaches way) low
    exact ⟨depth_eq_height within, hashed_of_height_le within⟩

/-! ### Long texts -/

/-- A chain is as high as it has links behind the first one. -/
theorem height_snake (bytes : List UInt8) : (snake bytes).height = (bytes.length - 1) / 127 := by
  fun_induction snake bytes with
  | case1 bytes short =>
    have size : bytes.length ≤ 127 := short
    rw [height, heightOver]
    omega
  | case2 bytes long ih =>
    have size : 127 < bytes.length := Nat.lt_of_not_le long
    rw [height, heightOver, heightOver, ih, List.length_drop, chunkSize]
    omega

/-- The depth of a chain is its height as far as the counter goes. -/
theorem depth_snake (bytes : List UInt8) :
    (snake bytes).depth.toNat = (bytes.length - 1) / 127 % 65536 := by
  fun_induction snake bytes with
  | case1 bytes short =>
    have size : bytes.length ≤ 127 := short
    have leaf := (isTop_depth ⟨Bits.ofBytes bytes, []⟩).none rfl
    omega
  | case2 bytes long ih =>
    have size : 127 < bytes.length := Nat.lt_of_not_le long
    have link := (isTop_depth ⟨Bits.ofBytes (bytes.take chunkSize),
      [snake (bytes.drop chunkSize)]⟩).reached (List.cons_ne_nil _ _)
    rw [List.map_singleton, List.mem_singleton] at link
    rw [link, ih, List.length_drop, chunkSize]
    omega

/-- The cell that a builder makes of a text. -/
def ofText (t : String) : Cell := (Builder.filled [.part ⟨.text, t⟩]).build

/-- The cell of a text is the first link of its chain. -/
theorem ofText_eq (t : String) : ofText t = snake t.toUTF8.toList := by
  have stored : (Entry.part ⟨.text, t⟩).store Builder.empty = .ok () (Builder.ofText t) :=
    Store.text_empty t
  have filled : Builder.filled [.part ⟨.text, t⟩] = Builder.ofText t := by
    rw [Builder.filled, List.foldl_cons, List.foldl_nil, Builder.after, stored]
  rw [ofText, filled, Builder.build_ofText]

/-- The cell of a text is made by a builder. -/
theorem built_ofText (t : String) : (ofText t).Built := by
  refine built_filled fun entry listed c held => ?_
  rw [List.mem_singleton.mp listed] at held
  cases held

/-- The letter `a` so many times. -/
def letters (n : Nat) : String := String.join (List.replicate n "a")

theorem utf8ByteSize_letters (n : Nat) : (letters n).utf8ByteSize = n := by
  have letter : "a".utf8ByteSize = 1 := rfl
  rw [letters]
  induction n with
  | zero => rfl
  | succ n ih =>
    rw [List.replicate_succ, String.join_cons, String.utf8ByteSize_append, ih, letter, Nat.add_comm]

theorem length_letters (n : Nat) : (letters n).toUTF8.toList.length = n := by
  rw [toList_eq_toList_data, String.toUTF8_eq_toByteArray, Array.length_toList,
    ByteArray.size_data, String.size_toByteArray, utf8ByteSize_letters]

/-- A text with one byte more than the counter goes for makes a cell that has a reference and the
depth 0. -/
theorem not_countsDepth_longText :
    (ofText (letters 8323073)).Built ∧ (ofText (letters 8323073)).height = 65536 ∧
      (ofText (letters 8323073)).depth = 0 ∧ (ofText (letters 8323073)).refs ≠ [] ∧
      ¬ (ofText (letters 8323073)).CountsDepth := by
  have height : (ofText (letters 8323073)).height = 65536 := by
    rw [ofText_eq, height_snake, length_letters]
  have depth : (ofText (letters 8323073)).depth = 0 := by
    rw [← UInt16.toNat_inj, ofText_eq, depth_snake, length_letters]
    rfl
  have refs : (ofText (letters 8323073)).refs ≠ [] := by
    intro none
    have leaf := (isTop_height (ofText (letters 8323073))).none
    rw [none, height] at leaf
    cases leaf rfl
  refine ⟨built_ofText _, height, depth, refs, ?_⟩
  intro counts
  obtain ⟨r, among⟩ := List.exists_mem_of_ne_nil _ refs
  have above := counts.bound _ (List.mem_map_of_mem among)
  rw [depth] at above
  cases above

end Cell

end ContractAbi
