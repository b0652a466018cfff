import Mathlib.Algebra.Group.Nat.Defs
import Mathlib.Data.List.Forall2

/-!
# Reading texts

Trimming white space, splitting at a separator and joining with it, and reading unsigned numbers
with a sign and an upper bound.

## Main definitions

* `isWhiteSpace`, `isBlank`, `trim` : white space.
* `split` : the pieces between the separators, at least one.
* `join` : the pieces with the separator between them.
* `u32Max`, `u64Max`, `usizeMax` : the largest values of the unsigned types.
* `parseUnsigned` : a number, or the text of the error.

## Main results

* `append_sep_eq_append_sep` : when two texts joined at a separator are the same.
* `bind_eq_ok`, `mapM_eq_ok_iff` : when the steps of a parser succeed.
* `join_split`, `split_join` : splitting and joining undo each other.
* `trim_eq_self` : trimming changes nothing in a trimmed text.
-/

namespace OxEmbed.Text

/-- The code points with the property `White_Space`. -/
def isWhiteSpace (c : Char) : Bool :=
  (0x9 ≤ c.toNat && c.toNat ≤ 0xd) || c.toNat == 0x20 || c.toNat == 0x85 || c.toNat == 0xa0 ||
    c.toNat == 0x1680 || (0x2000 ≤ c.toNat && c.toNat ≤ 0x200a) || c.toNat == 0x2028 ||
    c.toNat == 0x2029 || c.toNat == 0x202f || c.toNat == 0x205f || c.toNat == 0x3000

/-- Nothing is left of the text after trimming. -/
def isBlank (s : String) : Bool := s.toList.all isWhiteSpace

/-- Without the white space at both ends. -/
def trim (s : String) : String :=
  .ofList (((s.toList.dropWhile isWhiteSpace).reverse.dropWhile isWhiteSpace).reverse)

/-- The pieces between the separators. -/
def split (sep : Char) (s : String) : List String := (s.toList.splitOn sep).map String.ofList

/-- Two pairs of lists joined at a separator give the same list when they are the same pairs, or
when the one is split at an earlier separator than the other. -/
theorem append_sep_eq_append_sep {α : Type*} {sep : α} {a b a' b' : List α} :
    a ++ sep :: b = a' ++ sep :: b' ↔
      (a = a' ∧ b = b') ∨ (∃ mid, a' = a ++ sep :: mid ∧ b = mid ++ sep :: b') ∨
        ∃ mid, a = a' ++ sep :: mid ∧ b' = mid ++ sep :: b := by
  rw [List.append_eq_append_iff]
  constructor
  · rintro (⟨as, rfl, h⟩ | ⟨as, rfl, h⟩)
    · cases as with
      | nil => exact .inl ⟨(List.append_nil a).symm, (List.cons.inj h).2⟩
      | cons c mid =>
        obtain ⟨rfl, rfl⟩ := List.cons.inj h
        exact .inr (.inl ⟨mid, rfl, rfl⟩)
    · cases as with
      | nil => exact .inl ⟨List.append_nil a', (List.cons.inj h).2.symm⟩
      | cons c mid =>
        obtain ⟨rfl, rfl⟩ := List.cons.inj h
        exact .inr (.inr ⟨mid, rfl, rfl⟩)
  · rintro (⟨rfl, rfl⟩ | ⟨mid, rfl, rfl⟩ | ⟨mid, rfl, rfl⟩)
    · exact .inl ⟨[], (List.append_nil a).symm, rfl⟩
    · exact .inl ⟨sep :: mid, rfl, rfl⟩
    · exact .inr ⟨sep :: mid, rfl, rfl⟩

/-- The value of a decimal digit. -/
def digit (c : Char) : Option ℕ :=
  if 0x30 ≤ c.toNat ∧ c.toNat ≤ 0x39 then some (c.toNat - 0x30) else none

/-- `u32::MAX`. -/
def u32Max : ℕ := 2 ^ 32 - 1

/-- `u64::MAX`. -/
def u64Max : ℕ := 2 ^ 64 - 1

/-- `usize::MAX` on a platform of 64 bits. -/
def usizeMax : ℕ := 2 ^ 64 - 1

/-- Read digits, with the value `acc` of those before. -/
def parseDigits (bound acc : ℕ) : List Char → Except String ℕ
  | [] => .ok acc
  | c :: cs =>
    match digit c with
    | none => .error "invalid digit found in string"
    | some d =>
      if acc * 10 + d > bound then .error "number too large to fit in target type"
      else parseDigits bound (acc * 10 + d) cs

/-- A number of a type with the largest value `bound`. -/
def parseUnsigned (bound : ℕ) (s : String) : Except String ℕ :=
  match s.toList with
  | [] => .error "cannot parse integer from empty string"
  | ['+'] => .error "invalid digit found in string"
  | '+' :: digits => parseDigits bound 0 digits
  | digits => parseDigits bound 0 digits

/-! ### Steps of a parser -/

section Steps

variable {α β ε : Type} {b : β}

/-- A step that succeeds. -/
theorem bind_eq_ok {x : Except ε α} {f : α → Except ε β} :
    x >>= f = .ok b ↔ ∃ a, x = .ok a ∧ f a = .ok b := by
  cases x with
  | error e => exact ⟨fun h => (nomatch h), fun ⟨_, h, _⟩ => (nomatch h)⟩
  | ok a => exact ⟨fun h => ⟨a, rfl, h⟩, fun ⟨_, h, hf⟩ => Except.ok.inj h ▸ hf⟩

/-- Reading a list succeeds when all its elements are read. -/
theorem mapM_eq_ok_iff {f : α → Except ε β} {l : List α} {l' : List β} :
    l.mapM f = .ok l' ↔ List.Forall₂ (fun a b => f a = .ok b) l l' := by
  induction l generalizing l' with
  | nil =>
    rw [List.mapM_nil, List.forall₂_nil_left_iff]
    exact ⟨fun h => (Except.ok.inj h).symm, fun h => h ▸ rfl⟩
  | cons a l ih =>
    rw [List.mapM_cons, bind_eq_ok, List.forall₂_cons_left_iff]
    simp only [bind_eq_ok, ih]
    constructor
    · rintro ⟨b, hb, bs, hbs, heq⟩
      exact ⟨b, bs, hb, hbs, (Except.ok.inj heq).symm⟩
    · rintro ⟨b, bs, hb, hbs, rfl⟩
      exact ⟨b, hb, bs, hbs, rfl⟩

end Steps

/-! ### Joining -/

/-- The pieces with the separator between them. -/
def join (sep : Char) (pieces : List String) : String :=
  .ofList ([sep].intercalate (pieces.map String.toList))

/-- The pieces between the separators have none. -/
theorem notMem_of_mem_splitOn {α : Type*} [BEq α] [LawfulBEq α] {sep : α} {l piece : List α}
    (h : piece ∈ l.splitOn sep) : sep ∉ piece := by
  induction l generalizing piece with
  | nil =>
    rw [List.splitOn_nil, List.mem_singleton] at h
    rw [h]
    exact List.not_mem_nil
  | cons c l ih =>
    rw [List.splitOn_cons_eq_if_modifyHead] at h
    split at h
    · rcases List.mem_cons.1 h with rfl | h
      · exact List.not_mem_nil
      · exact ih h
    next hc =>
      match hpieces : l.splitOn sep with
      | [] => exact absurd hpieces (List.splitOn_ne_nil _ _)
      | first :: pieces =>
        rw [hpieces, List.modifyHead_cons] at h
        rcases List.mem_cons.1 h with rfl | h
        · rw [List.mem_cons, not_or]
          refine ⟨fun heq => hc (by simp [← heq]), ih ?_⟩
          rw [hpieces]
          exact List.mem_cons_self
        · refine ih ?_
          rw [hpieces]
          exact List.mem_cons_of_mem _ h

variable {sep c : Char} {s piece : String} {pieces : List String}

theorem sep_notMem_of_mem_split (h : piece ∈ split sep s) : sep ∉ piece.toList := by
  obtain ⟨l, hl, rfl⟩ := List.mem_map.1 h
  rw [String.toList_ofList]
  exact notMem_of_mem_splitOn hl

/-- **Joining undoes splitting.** -/
theorem join_split (sep : Char) (s : String) : join sep (split sep s) = s := by
  rw [join, split, List.map_map]
  have hlist : String.toList ∘ String.ofList = id := by
    funext l
    exact String.toList_ofList
  rw [hlist, List.map_id, List.intercalate_splitOn, String.ofList_toList]

/-- **Splitting undoes joining**, for pieces without the separator. -/
theorem split_join (hne : pieces ≠ []) (h : ∀ p ∈ pieces, sep ∉ p.toList) :
    split sep (join sep pieces) = pieces := by
  rw [split, join, String.toList_ofList, List.splitOn_intercalate]
  · rw [List.map_map]
    have hlist : String.ofList ∘ String.toList = id := by
      funext s
      exact String.ofList_toList
    rw [hlist, List.map_id]
  · intro l hl
    obtain ⟨p, hp, rfl⟩ := List.mem_map.1 hl
    exact h p hp
  · simpa using hne

theorem toList_join_cons (p : String) (h : pieces ≠ []) :
    (join sep (p :: pieces)).toList = p.toList ++ sep :: (join sep pieces).toList := by
  have hmap : pieces.map String.toList ≠ [] := by simpa using h
  rw [join, join, String.toList_ofList, String.toList_ofList, List.map_cons,
    List.intercalate_cons_of_ne_nil hmap, List.append_assoc, List.singleton_append]

theorem join_singleton (p : String) : join sep [p] = p := by
  rw [join, List.map_singleton, List.intercalate_singleton, String.ofList_toList]

/-- The characters of a joined text are those of its pieces and the separators. -/
theorem mem_join (h : c ∈ (join sep pieces).toList) : c = sep ∨ ∃ p ∈ pieces, c ∈ p.toList := by
  induction pieces with
  | nil => cases h
  | cons p pieces ih =>
    by_cases hne : pieces = []
    · subst hne
      rw [join_singleton] at h
      exact .inr ⟨p, List.mem_singleton_self p, h⟩
    · rw [toList_join_cons p hne, List.mem_append, List.mem_cons] at h
      rcases h with h | h | h
      · exact .inr ⟨p, List.mem_cons_self, h⟩
      · exact .inl h
      · refine (ih h).imp_right fun ⟨q, hq, hc⟩ => ⟨q, List.mem_cons_of_mem p hq, hc⟩

theorem mem_join_of_mem (hp : piece ∈ pieces) (hc : c ∈ piece.toList) :
    c ∈ (join sep pieces).toList := by
  induction pieces with
  | nil => cases hp
  | cons p pieces ih =>
    by_cases hne : pieces = []
    · subst hne
      rw [join_singleton]
      exact List.mem_singleton.1 hp ▸ hc
    · rw [toList_join_cons p hne]
      rcases List.mem_cons.1 hp with rfl | hp
      · exact List.mem_append_left _ hc
      · exact List.mem_append_right _ (List.mem_cons_of_mem _ (ih hp))

/-- The characters of a piece are those of the text. -/
theorem mem_of_mem_split (hp : piece ∈ split sep s) (hc : c ∈ piece.toList) : c ∈ s.toList := by
  rw [← join_split sep s]
  exact mem_join_of_mem hp hc

/-- The first character of a joined text. -/
theorem head?_join (p : String) (h : pieces ≠ []) :
    (join sep (p :: pieces)).toList.head? = some (p.toList.head?.getD sep) := by
  rw [toList_join_cons p h]
  cases p.toList <;> rfl

/-- The last character of a joined text, when the last piece is not empty. -/
theorem getLast?_join {pieces : List String} (h : piece ≠ "") :
    (join sep (pieces ++ [piece])).toList.getLast? = piece.toList.getLast? := by
  induction pieces with
  | nil => rw [List.nil_append, join_singleton]
  | cons p pieces ih =>
    rw [List.cons_append, toList_join_cons p (List.append_ne_nil_of_right_ne_nil _ (by simp)),
      List.getLast?_append, List.getLast?_cons, ih]
    cases hlast : piece.toList.getLast? with
    | some c => rfl
    | none =>
      rw [List.getLast?_eq_none_iff] at hlast
      exact absurd (String.toList_inj.1 hlast) h

/-! ### Trimmed texts -/

/-- The text does not start with white space. -/
def TrimmedStart (s : String) : Prop := ∀ c ∈ s.toList.head?, isWhiteSpace c = false

/-- The text does not end with white space. -/
def TrimmedEnd (s : String) : Prop := ∀ c ∈ s.toList.getLast?, isWhiteSpace c = false

theorem dropWhile_of_head? {α : Type*} {p : α → Bool} {l : List α}
    (h : ∀ a ∈ l.head?, p a = false) : l.dropWhile p = l := by
  cases l with
  | nil => rfl
  | cons a l => rw [List.dropWhile_cons, h a rfl, if_neg Bool.false_ne_true]

theorem head?_dropWhile {α : Type*} {p : α → Bool} {l : List α} :
    ∀ a ∈ (l.dropWhile p).head?, p a = false := by
  intro a ha
  have h := List.head?_dropWhile_not p l
  rw [ha] at h
  exact h

/-- Trimming changes nothing in a trimmed text. -/
theorem trim_eq_self (hstart : TrimmedStart s) (hend : TrimmedEnd s) : trim s = s := by
  rw [trim, dropWhile_of_head? hstart, dropWhile_of_head?, List.reverse_reverse,
    String.ofList_toList]
  rw [List.head?_reverse]
  exact hend

theorem toList_trim (s : String) : (trim s).toList =
    ((s.toList.dropWhile isWhiteSpace).reverse.dropWhile isWhiteSpace).reverse := by
  rw [trim, String.toList_ofList]

theorem trimmedEnd_trim (s : String) : TrimmedEnd (trim s) := by
  rw [TrimmedEnd, toList_trim, List.getLast?_reverse]
  exact head?_dropWhile

/-- What trimming leaves is a prefix of what it leaves when it trims the start only. -/
theorem trim_of_dropWhile (s : String) : (trim s).toList <+: s.toList.dropWhile isWhiteSpace := by
  rw [toList_trim, ← List.reverse_suffix, List.reverse_reverse]
  exact List.dropWhile_suffix _

theorem trimmedStart_trim (s : String) : TrimmedStart (trim s) := by
  intro c hc
  obtain ⟨rest, hrest⟩ := trim_of_dropWhile s
  refine head?_dropWhile (l := s.toList) c ?_
  rw [← hrest, List.head?_append, hc]
  rfl

theorem mem_of_mem_trim (h : c ∈ (trim s).toList) : c ∈ s.toList :=
  (List.dropWhile_suffix _).subset ((trim_of_dropWhile s).subset h)

end OxEmbed.Text
