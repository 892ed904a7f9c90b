import DeclGraph.Files.Disk
import DeclGraph.Proofs.Passes

/-!
# Writing to a disk

What `Disk.write` changes.  Making a way adds directories where nothing was, on the way
only (`Disk.MakesOnly`), and following a path afterwards leads to what was put at its
end.  So after a write the path leads to a file with the new content, directories that
were missing on the way to it are there, and everything else is as it was; a write that
fails leaves no more than such directories.
-/

namespace DeclGraph

namespace Disk

section Entries

variable {d d' : Disk} {key k : Key} {e : Entry}

theorem lookup_filter_ne
    {entries : List (Key × Entry)}
    (h : k ≠ key) :
    (entries.filter (·.1 != key)).lookup k = entries.lookup k := by
  induction entries with
  | nil => rfl
  | cons entry entries ih =>
      obtain ⟨name, e⟩ := entry
      by_cases hname : name = key
      · subst hname
        rw [List.filter_cons_of_neg (by simp), ih, List.lookup_cons, beq_false_of_ne h]
      · rw [List.filter_cons_of_pos (by simpa using hname), List.lookup_cons, List.lookup_cons, ih]

theorem get?_put_self (d : Disk) (key : Key) (e : Entry) : (d.put key e).get? key = some e := by
  simp [put, get?]

theorem get?_put_of_ne
    (d : Disk) (e : Entry)
    (h : k ≠ key) :
    (d.put key e).get? k = d.get? k := by
  unfold put get?
  rw [List.lookup_cons, beq_false_of_ne h]
  exact lookup_filter_ne h

end Entries

section Ways

variable {d d' : Disk} {here : Key} {steps : List String}

/-- The keys that steps lead to, one after the other. -/
def wayKeys (here : Key) : List String → List Key
  | [] => []
  | step :: steps =>
    if step == ".." then wayKeys (parentKey here) steps
    else (here ++ [step]) :: wayKeys (here ++ [step]) steps

/-- The directories on the way to the last step of a path. -/
def way (p : Path) : List Key :=
  wayKeys p.start p.parent.parts

/-- One disk has all that another one has, and directories at some keys besides. -/
def MakesOnly (d d' : Disk) (keys : List Key) : Prop :=
  ∀ k, d'.get? k = d.get? k ∨ (k ∈ keys ∧ d.get? k = none ∧ d'.get? k = some .directory)

theorem MakesOnly.mono
    {keys keys' : List Key}
    (h : d.MakesOnly d' keys)
    (hkeys : ∀ k ∈ keys, k ∈ keys') :
    d.MakesOnly d' keys' :=
  fun k => (h k).imp_right fun ⟨hk, hnone, hmade⟩ => ⟨hkeys k hk, hnone, hmade⟩

/-- One more directory, where nothing was. -/
theorem MakesOnly.of_put
    {key : Key} {keys : List Key}
    (hnone : d.get? key = none)
    (h : (d.put key .directory).MakesOnly d' keys) :
    d.MakesOnly d' (key :: keys) := by
  intro k
  by_cases hk : k = key
  · subst hk
    refine .inr ⟨List.mem_cons_self, hnone, ?_⟩
    rcases h k with heq | ⟨-, -, hmade⟩
    · rw [heq, get?_put_self]
    · exact hmade
  · rcases h k with heq | ⟨hmem, hmissing, hmade⟩
    · exact .inl (heq.trans (get?_put_of_ne d _ hk))
    · refine .inr ⟨List.mem_cons_of_mem _ hmem, ?_, hmade⟩
      rw [← get?_put_of_ne d .directory hk]
      exact hmissing

/-- Making a way adds nothing but directories on it. -/
theorem makesOnly_of_makeWay
    {made : Bool} {outcome : Except WriteFault Unit}
    (h : d.makeWay made here steps = (outcome, d')) :
    d.MakesOnly d' (wayKeys here steps) := by
  induction steps generalizing d made here with
  | nil =>
      cases h
      exact fun k => .inl rfl
  | cons step steps ih =>
      rw [makeWay] at h
      rw [wayKeys]
      split at h
      · rename_i hup
        rw [if_pos hup]
        exact ih h
      · rename_i hdown
        rw [if_neg hdown]
        dsimp only at h
        split at h
        · exact (ih h).mono fun k hk => List.mem_cons_of_mem _ hk
        · cases h
          exact fun k => .inl rfl
        · rename_i hnone
          exact .of_put hnone (ih h)

end Ways

section Writing

variable {d d' : Disk} {here key : Key} {steps : List String} {content : List UInt8} {p : Path}

/-- The place of a file at the end of some steps: a file is there already, or nothing. -/
def LeadsTo (d : Disk) (here : Key) (steps : List String) (key : Key) : Prop :=
  (∃ old, d.walk here steps = .file key old) ∨ d.walk here steps = .missing (some key)

theorem not_leadsTo_nil : ¬ d.LeadsTo here [] key := by
  rintro (⟨old, h⟩ | h)
  · cases h
  · cases h

theorem LeadsTo.up
    {step : String}
    (h : d.LeadsTo here (step :: steps) key)
    (hup : (step == "..") = true) :
    d.LeadsTo (parentKey here) steps key := by
  unfold LeadsTo at h
  rw [walk, if_pos hup] at h
  exact h

/-- A step down leads through a directory, or it is the last one. -/
theorem LeadsTo.down
    {step : String}
    (h : d.LeadsTo here (step :: steps) key)
    (hdown : ¬ (step == "..") = true) :
    (d.get? (here ++ [step]) = some .directory ∧ d.LeadsTo (here ++ [step]) steps key) ∨
    (steps = [] ∧ here ++ [step] = key ∧ d.get? key ≠ some .directory) := by
  unfold LeadsTo at h
  rw [walk, if_neg hdown] at h
  dsimp only at h
  cases hget : d.get? (here ++ [step]) with
  | none =>
      rw [hget] at h
      cases steps with
      | nil =>
          rcases h with ⟨old, h⟩ | h
          · cases h
          · cases h
            exact .inr ⟨rfl, rfl, by simp [hget]⟩
      | cons next steps =>
          rcases h with ⟨old, h⟩ | h
          · cases h
          · cases h
  | some entry =>
      rw [hget] at h
      cases entry with
      | directory => exact .inl ⟨rfl, h⟩
      | file content =>
          cases steps with
          | nil =>
              rcases h with ⟨old, h⟩ | h
              · cases h
                exact .inr ⟨rfl, rfl, by simp [hget]⟩
              · cases h
          | cons next steps =>
              rcases h with ⟨old, h⟩ | h
              · cases h
              · cases h

theorem LeadsTo.not_directory
    (h : d.LeadsTo here steps key) :
    d.get? key ≠ some .directory := by
  induction steps generalizing here with
  | nil => exact absurd h not_leadsTo_nil
  | cons step steps ih =>
      by_cases hup : (step == "..") = true
      · exact ih (h.up hup)
      · rcases h.down hup with ⟨-, h⟩ | ⟨-, -, hkey⟩
        · exact ih h
        · exact hkey

/-- What is put in the place of a file is found there. -/
theorem LeadsTo.walk_put
    (h : d.LeadsTo here steps key)
    (content : List UInt8) :
    (d.put key (.file content)).walk here steps = .file key content := by
  induction steps generalizing here with
  | nil => exact absurd h not_leadsTo_nil
  | cons step steps ih =>
      rw [walk]
      by_cases hup : (step == "..") = true
      · rw [if_pos hup]
        exact ih (h.up hup)
      · rw [if_neg hup]
        dsimp only
        rcases h.down hup with ⟨hdirectory, h⟩ | ⟨rfl, rfl, -⟩
        · -- The steps before the last lead through directories, none of which is replaced.
          have hne : here ++ [step] ≠ key := fun heq => h.not_directory (heq ▸ hdirectory)
          rw [get?_put_of_ne d _ hne, hdirectory]
          exact ih h
        · rw [get?_put_self]
          rfl

/-- A write makes the way to the file.  If that succeeds and the path then leads to the
place of a file, the content is put there; otherwise nothing else is changed. -/
theorem write_cases
    {outcome : Except WriteFault Unit}
    (h : d.write p content = (outcome, d')) :
    ∃ ready, d.MakesOnly ready (way p) ∧
      ((outcome = .ok () ∧ ∃ key, ready.LeadsTo p.start p.parts key ∧
          d' = ready.put key (.file content)) ∨
        (∃ f, outcome = .error f ∧ d' = ready)) := by
  unfold write at h
  split at h
  · rename_i f ready hway
    cases h
    exact ⟨_, makesOnly_of_makeWay hway, .inr ⟨f, rfl, rfl⟩⟩
  · rename_i ready hway
    refine ⟨ready, makesOnly_of_makeWay hway, ?_⟩
    split at h
    · rename_i key old hfound
      cases h
      exact .inl ⟨rfl, key, .inl ⟨old, hfound⟩, rfl⟩
    · rename_i key hfound
      cases h
      exact .inl ⟨rfl, key, .inr hfound, rfl⟩
    · cases h
      exact .inr ⟨_, rfl, rfl⟩
    · cases h
      exact .inr ⟨_, rfl, rfl⟩

/-- A path leads to the place of a file after a write, and the rest of the disk is as it
was, but for directories on the way. -/
theorem exists_of_write
    (h : d.write p content = (.ok (), d')) :
    ∃ key, d'.find p = .file key content ∧ d.get? key ≠ some .directory ∧
      ∀ k, k ≠ key → d'.get? k = d.get? k ∨
        (k ∈ way p ∧ d.get? k = none ∧ d'.get? k = some .directory) := by
  obtain ⟨ready, hmakes, ⟨-, key, hleads, rfl⟩ | ⟨f, hfault, -⟩⟩ := write_cases h
  · refine ⟨key, hleads.walk_put content, ?_, fun k hk => ?_⟩
    · rcases hmakes key with heq | ⟨-, hnone, -⟩
      · rw [← heq]
        exact hleads.not_directory
      · simp [hnone]
    · rw [get?_put_of_ne ready _ hk]
      exact hmakes k
  · cases hfault

/-- After a write that fails there is nothing new but directories on the way. -/
theorem makesOnly_of_write_error
    {f : WriteFault}
    (h : d.write p content = (.error f, d')) :
    d.MakesOnly d' (way p) := by
  obtain ⟨ready, hmakes, ⟨hok, -⟩ | ⟨f, -, rfl⟩⟩ := write_cases h
  · cases hok
  · exact hmakes

/-- A file that a path leads to can be read. -/
theorem read_of_find
    (h : d.find p = .file key content) :
    d.read p = .ok content := by
  unfold read
  rw [h]

end Writing

end Disk

end DeclGraph
