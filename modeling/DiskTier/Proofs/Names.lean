import DiskTier.Config
import Mathlib

/-!
# Names of files

The path of a file of a region ends with a step down to the file's own name, whatever the directory
is, and the names of the three files differ. So the files never get into each other's way.
-/

namespace DiskTier

/-! ### Paths -/

namespace Path

/-- The text is one name in a directory. -/
structure IsName (name : String) : Prop where
  nonempty : name.toList ≠ []
  single : separator ∉ name.toList
  notStay : name.toList ≠ ['.']
  notUp : name.toList ≠ ['.', '.']

theorem split_of_not_mem {l : List Char} (h : separator ∉ l) : split l = [l] := by
  induction l with
  | nil => rfl
  | cons c l ih =>
    rw [List.mem_cons, not_or] at h
    rw [split, if_neg (Ne.symm h.1), ih h.2]

theorem split_ne_nil (l : List Char) : split l ≠ [] := by
  induction l with
  | nil => simp [split]
  | cons c l ih =>
    rw [split]
    split
    · simp
    · split <;> simp

theorem split_append_separator (l l' : List Char) :
    split (l ++ separator :: l') = split l ++ split l' := by
  induction l with
  | nil => simp [split]
  | cons c l ih =>
    rw [List.cons_append, split, split, ih]
    split
    · rfl
    · cases hl : split l with
      | nil => exact absurd hl (split_ne_nil l)
      | cons part parts => rfl

variable {p : Path} {name : String}

theorem IsName.step (h : IsName name) :
    ([name.toList].filter (· ≠ [])).map Step.ofPart = [.down name] := by
  simp [h.nonempty, Step.ofPart, h.notStay, h.notUp]

/-- The walk to a name below a path goes the way of the path, and then down to the name. -/
theorem steps_join (h : IsName name) : (p.join name).steps = p.steps ++ [.down name] := by
  have hhead : name.toList.head? ≠ some separator := fun hn =>
    h.single (List.mem_of_mem_head? (by simp [hn]))
  have hsplit : ∀ l l' : List Char, split (l ++ separator :: l') = split l ++ split l' :=
    split_append_separator
  unfold join
  rw [if_neg hhead]
  split
  · next hp =>
    rw [Bool.or_eq_true] at hp
    rcases hp with hp | hp
    · have hnil : p.text.toList = [] := by simpa using hp
      simp only [steps, String.toList_append, hnil, List.nil_append, split_of_not_mem h.single]
      rw [h.step]
      rfl
    · -- the separator at the end of the path is followed by nothing there
      obtain ⟨l, hl⟩ := List.getLast?_eq_some_iff.1 (of_decide_eq_true hp)
      simp only [steps, String.toList_append, hl, List.append_assoc, List.singleton_append,
        hsplit, split_of_not_mem h.single, List.filter_append, List.map_append]
      rw [h.step]
      simp [split]
  · have hseparator : separator.toString.toList = [separator] := rfl
    simp only [steps, String.toList_append, hseparator, List.append_assoc, List.singleton_append,
      hsplit, split_of_not_mem h.single, List.filter_append, List.map_append]
    rw [h.step]

/-- The last step of the walk to a name below a path goes down to that name. -/
theorem getLast?_steps_join (h : IsName name) :
    (p.join name).steps.getLast? = some (.down name) := by
  rw [steps_join h, List.getLast?_append]
  rfl

/-- A path that ends in a name is not one that can only be a directory. -/
theorem isDirectoryForm_join (h : IsName name) : (p.join name).isDirectoryForm = false := by
  have hlast : name.toList.getLast? ≠ some separator := fun hn =>
    h.single (List.mem_of_getLast? hn)
  have happend : ∀ l : List Char, (l ++ name.toList).getLast? = name.toList.getLast? := by
    intro l
    rw [List.getLast?_append]
    cases hl : name.toList.getLast? with
    | none => exact absurd (List.getLast?_eq_none_iff.1 hl) h.nonempty
    | some c => rfl
  unfold isDirectoryForm join
  rw [decide_eq_false_iff_not]
  split
  · exact hlast
  · split
    · rw [String.toList_append, happend]
      exact hlast
    · rw [String.toList_append, happend]
      exact hlast

/-- A file system takes the path. -/
def IsPlain (p : Path) : Prop := p.hasNul = false ∧ p.isTooLong = false

theorem toList_join (h : IsName name) : ∃ l, (p.join name).text.toList = p.text.toList ++ l := by
  have hhead : name.toList.head? ≠ some separator := fun hn =>
    h.single (List.mem_of_mem_head? (by simp [hn]))
  unfold join
  rw [if_neg hhead]
  split
  · exact ⟨name.toList, String.toList_append⟩
  · exact ⟨separator :: name.toList, by
      rw [String.toList_append, String.toList_append, List.append_assoc]
      rfl⟩

/-- The directory of a path that is taken is taken itself. -/
theorem IsPlain.of_join (h : IsName name) (hp : (p.join name).IsPlain) : p.IsPlain := by
  obtain ⟨l, hl⟩ := toList_join (p := p) h
  obtain ⟨hnul, hlong⟩ := hp
  constructor
  · rw [hasNul, Bool.eq_false_iff] at hnul ⊢
    intro hmem
    apply hnul
    rw [List.contains_iff_mem] at hmem ⊢
    exact hl ▸ List.mem_append_left l hmem
  · rw [isTooLong, decide_eq_false_iff_not, Utf8.size, Utf8.encode, hl, List.flatMap_append,
      List.length_append] at hlong
    rw [isTooLong, decide_eq_false_iff_not, Utf8.size, Utf8.encode]
    omega

end Path

namespace Config

variable {c : Config}

/-- The names of the files of a region. -/
def dataName (c : Config) : String := c.cacheName ++ ".data"
def keyName (c : Config) : String := c.cacheName ++ ".key"
def draftName (c : Config) : String := c.cacheName ++ "Temp.data"

/-- What `validate` lets through. -/
structure Valid (c : Config) : Prop where
  named : c.cacheName ≠ ""
  unseparated : ∀ a ∈ c.cacheName.toList, isSeparator a = false
  roomy : 0 < c.maxKeys

theorem valid_of_validate (h : c.validate = .ok ()) : c.Valid := by
  unfold validate problem? at h
  split at h
  · cases h
  · next hp =>
    split at hp
    · cases hp
    · next hname =>
      split at hp
      · cases hp
      · next hsep =>
        split at hp
        · cases hp
        · next hkeys =>
          refine ⟨?_, ?_, Nat.pos_of_ne_zero hkeys⟩
          · simpa using hname
          · simpa using hsep

theorem Valid.validate (h : c.Valid) : c.validate = .ok () := by
  have hsep : c.cacheName.toList.any isSeparator = false := by
    rw [List.any_eq_false]
    exact fun a ha => Bool.not_eq_true _ ▸ h.unseparated a ha
  have hname : c.cacheName.isEmpty = false := by
    rw [Bool.eq_false_iff]
    simpa using h.named
  have hroomy : c.maxKeys ≠ 0 := Nat.pos_iff_ne_zero.1 h.roomy
  rw [Config.validate, problem?, hname, hsep]
  simp [hroomy]

theorem Valid.isName (h : c.Valid) {ext : String} (hsep : Path.separator ∉ ext.toList)
    (hlen : 3 ≤ ext.toList.length) : Path.IsName (c.cacheName ++ ext) := by
  have hlen' : ∀ l : List Char, l.length ≤ 2 → (c.cacheName ++ ext).toList ≠ l := by
    rintro l hl rfl
    simp only [String.toList_append, List.length_append] at hl
    omega
  refine ⟨hlen' _ (by simp), ?_, hlen' _ (by simp), hlen' _ (by simp)⟩
  rw [String.toList_append, List.mem_append]
  rintro (hm | hm)
  · exact absurd (h.unseparated _ hm) (by decide)
  · exact hsep hm

theorem Valid.dataName (h : c.Valid) : Path.IsName c.dataName := h.isName (by decide) (by decide)

theorem Valid.keyName (h : c.Valid) : Path.IsName c.keyName := h.isName (by decide) (by decide)

theorem Valid.draftName (h : c.Valid) : Path.IsName c.draftName := h.isName (by decide) (by decide)

theorem Valid.steps_dataFile (h : c.Valid) :
    c.dataFile.steps.getLast? = some (.down c.dataName) := Path.getLast?_steps_join h.dataName

theorem Valid.steps_keyFile (h : c.Valid) :
    c.keyFile.steps.getLast? = some (.down c.keyName) := Path.getLast?_steps_join h.keyName

theorem Valid.steps_draftFile (h : c.Valid) :
    c.draftFile.steps.getLast? = some (.down c.draftName) := Path.getLast?_steps_join h.draftName

theorem Valid.walk_dataFile (h : c.Valid) :
    c.dataFile.steps = c.diskPath.steps ++ [.down c.dataName] := Path.steps_join h.dataName

theorem Valid.walk_keyFile (h : c.Valid) :
    c.keyFile.steps = c.diskPath.steps ++ [.down c.keyName] := Path.steps_join h.keyName

theorem Valid.walk_draftFile (h : c.Valid) :
    c.draftFile.steps = c.diskPath.steps ++ [.down c.draftName] := Path.steps_join h.draftName

theorem append_ne_append {a b : String} (h : a ≠ b) (s : String) : s ++ a ≠ s ++ b := by
  intro heq
  have := congrArg String.toList heq
  rw [String.toList_append, String.toList_append] at this
  exact h (String.toList_inj.1 (List.append_cancel_left this))

theorem dataName_ne_keyName (c : Config) : c.dataName ≠ c.keyName :=
  append_ne_append (by decide) _

theorem draftName_ne_dataName (c : Config) : c.draftName ≠ c.dataName :=
  append_ne_append (by decide) _

theorem draftName_ne_keyName (c : Config) : c.draftName ≠ c.keyName :=
  append_ne_append (by decide) _

end Config

end DiskTier
