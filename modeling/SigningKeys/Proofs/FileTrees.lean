import SigningKeys.Files.Operations
import SigningKeys.Proofs.Outcomes

/-!
# What a change leaves as it was

Content that is saved at a path is found where the path leads afterwards, and no other file is
touched: directories that are made on the way hold no file that was not there before, and the walk
to the file changes nothing beside it.

Where a path leads is settled only when its directories have been made, since a step out of a
directory is a step into it first.  From then on it does not change any more, for a walk meets
directories only and the file that is written is none.

## Main definitions

* `Files.Tree.KeepsDirectories`: all directories of a tree are in another one.
* `Files.Tree.Grows`: a tree has got more directories, and is else as it was.
* `Files.Caller.keptRights`: the rights of a file after other content has come into it.

## Main results

* `Files.Tree.look_insert`: **something is inserted at one place, and all others are as before.**
* `Files.Caller.grows_makeDirectories`: making directories touches no file.
* `Files.Caller.walk_of_keepsDirectories`: a walk goes the same way as long as the directories are
  there.
* `Files.Caller.look_writeAt`: what is written is at its place, and nothing else has changed.
* `Files.Caller.look_save`: **what is saved at a path is where the path leads, and no other file is
  touched.**
* `Files.Caller.grows_of_save_error`: what cannot be saved leaves all files as they were.
-/

namespace SigningKeys

namespace Files

variable {t t' : Tree} {place : List String}

namespace Tree

/-! ### Inserting -/

/-- Nothing is further down in a tree. -/
def Bare (t : Tree) : Prop := ∀ name names, t.look (name :: names) = none

theorem bare_file (f : File) : (file f).Bare := fun _ _ => rfl

theorem bare_empty (rights : Rights) : (empty rights).Bare := fun _ _ => rfl

theorem look_of_bare (h : t.Bare) (place : List String) :
    t.look place = if place = [] then some t.node else none := by
  cases place with
  | nil => simp
  | cons name names => rw [h, if_neg (List.cons_ne_nil _ _)]

theorem bare_of_not_directory (h : ∀ rights, t.node ≠ .directory rights) : t.Bare := by
  cases t with
  | file f => exact bare_file f
  | directory rights child => exact absurd rfl (h rights)

/-- What is not the root is in a directory. -/
theorem exists_directory_of_look {n : Node} (h : t.look place = some n) (hne : place ≠ []) :
    ∃ rights, t.look place.dropLast = some (.directory rights) := by
  induction place generalizing t with
  | nil => exact absurd rfl hne
  | cons name names ih =>
    cases t with
    | file f => cases h
    | directory rights child =>
      cases names with
      | nil => exact ⟨rights, rfl⟩
      | cons other rest =>
        rw [look_directory_cons] at h
        cases hchild : child name with
        | none => simp [hchild] at h
        | some s =>
          rw [hchild] at h
          obtain ⟨rights', hrights⟩ := ih h (List.cons_ne_nil _ _)
          refine ⟨rights', ?_⟩
          rw [List.dropLast_cons_cons, look_directory_cons, hchild]
          exact hrights

/-- Nothing is further down behind a place with no directory. -/
theorem look_below (h : ∀ rights, t.look place ≠ some (.directory rights)) (name : String)
    (names : List String) : t.look (place ++ name :: names) = none := by
  induction place generalizing t with
  | nil => exact bare_of_not_directory (fun rights ht => h rights (by simp [ht])) name names
  | cons first rest ih =>
    cases t with
    | file f => rfl
    | directory rights child =>
      rw [List.cons_append, look_directory_cons]
      cases hchild : child first with
      | none => rfl
      | some s =>
        rw [Option.bind_some]
        refine ih fun rights hs => h rights ?_
        rw [look_directory_cons, hchild]
        exact hs

section Child

variable {rights : Rights} {child : String → Option Tree} {name : String} {new : Tree}

theorem look_insert_of_ne {first : String} (h : first ≠ name) (names rest : List String) :
    ((directory rights child).insert (name :: names) new).look (first :: rest) =
      (directory rights child).look (first :: rest) := by
  rw [insert, look_directory_cons, look_directory_cons, if_pos h]

theorem look_insert_child (rest : List String) :
    ((directory rights child).insert [name] new).look (name :: rest) = new.look rest := by
  rw [insert, look_directory_cons, if_neg (not_not_intro rfl), if_pos rfl, Option.bind_some]

theorem look_insert_below {s : Tree} (h : child name = some s) (second : String)
    (names rest : List String) :
    ((directory rights child).insert (name :: second :: names) new).look (name :: rest) =
      (s.insert (second :: names) new).look rest := by
  rw [insert, look_directory_cons, if_neg (not_not_intro rfl), if_neg (List.cons_ne_nil _ _), h,
    Option.map_some, Option.bind_some]

end Child

/-- Something that holds nothing comes to one place, if that is in a directory and is none itself,
and all others are as before. -/
theorem look_insert {new : Tree} (hnew : new.Bare)
    (hfree : ∀ rights, t.look place ≠ some (.directory rights))
    (hparent : place ≠ [] → ∃ rights, t.look place.dropLast = some (.directory rights))
    (other : List String) :
    (t.insert place new).look other = if other = place then some new.node else t.look other := by
  induction place generalizing t other with
  | nil =>
    have hbare : t.Bare := bare_of_not_directory fun rights h => hfree rights (by simp [h])
    rw [look_of_bare hbare other]
    show new.look other = _
    rw [look_of_bare hnew other]
    split <;> rfl
  | cons name names ih =>
    obtain ⟨rights, hparent⟩ := hparent (List.cons_ne_nil _ _)
    cases t with
    | file f => cases names <;> cases hparent
    | directory rights' child =>
      cases other with
      | nil => rfl
      | cons first rest =>
        by_cases hname : first = name
        · subst hname
          cases names with
          | nil =>
            rw [look_insert_child, look_of_bare hnew]
            cases rest with
            | nil => rw [if_pos rfl, if_pos rfl]
            | cons second rest =>
              rw [if_neg (List.cons_ne_nil _ _), if_neg (by simp)]
              exact (look_below hfree second rest).symm
          | cons second names =>
            rw [List.dropLast_cons_cons, look_directory_cons] at hparent
            cases hchild : child first with
            | none => simp [hchild] at hparent
            | some s =>
              rw [hchild] at hparent
              have hdeeper : ∀ rights, s.look (second :: names) ≠ some (.directory rights) := by
                intro rights h
                exact hfree rights (by simpa [hchild] using h)
              have hinsert := ih hdeeper (fun _ => ⟨rights, hparent⟩) rest
              rw [look_insert_below hchild, hinsert]
              simp [hchild]
        · have hne : first :: rest ≠ name :: names := fun h => hname (List.cons.inj h).1
          rw [look_insert_of_ne hname, if_neg hne]

/-! ### More directories -/

/-- All directories of a tree are in another one. -/
def KeepsDirectories (t t' : Tree) : Prop :=
  ∀ place rights, t.look place = some (.directory rights) → t'.look place = some (.directory rights)

/-- A tree has got more directories; those that it had are there, and its files are the same. -/
structure Grows (t t' : Tree) : Prop where
  /-- No directory is lost or given away. -/
  keepsDirectories : t.KeepsDirectories t'
  /-- No file is lost, changed or made. -/
  file_iff : ∀ place f, t.look place = some (.file f) ↔ t'.look place = some (.file f)

theorem Grows.refl (t : Tree) : t.Grows t := ⟨fun _ _ => id, fun _ _ => Iff.rfl⟩

theorem Grows.trans {t'' : Tree} (h : t.Grows t') (h' : t'.Grows t'') : t.Grows t'' where
  keepsDirectories place rights hlook :=
    h'.keepsDirectories place rights (h.keepsDirectories place rights hlook)
  file_iff place f := (h.file_iff place f).trans (h'.file_iff place f)

end Tree

namespace Caller

variable {c : Caller} {p : Path} {content : Bytes} {newMode : Mode}

/-! ### Making -/

/-- Something is made in a directory that the caller may write to. -/
theorem insert_of_make {new : Tree} (h : c.make t place new = .ok t') :
    t' = t.insert place new ∧
      ∃ rights, t.look place.dropLast = some (.directory rights) ∧ c.may .write rights = true := by
  unfold make at h
  split at h
  · cases h
  · cases h
  · next rights hlook =>
    split at h
    · next hmay =>
      cases h
      exact ⟨rfl, rights, hlook, hmay⟩
    · cases h

/-- What is made is at its place, and nothing else has changed. -/
theorem look_make {new : Tree} (hnew : new.Bare) (hmissing : t.look place = none)
    (h : c.make t place new = .ok t') (other : List String) :
    t'.look other = if other = place then some new.node else t.look other := by
  obtain ⟨rfl, rights, hparent, -⟩ := insert_of_make h
  exact Tree.look_insert hnew (by simp [hmissing]) (fun _ => ⟨rights, hparent⟩) other

theorem grows_makeMissing (h : c.makeMissing t place = .ok t') : t.Grows t' := by
  unfold makeMissing at h
  split at h
  · cases h
    exact .refl t
  · next hmissing =>
    rw [Option.not_isSome_iff_eq_none] at hmissing
    have hlook := look_make (Tree.bare_empty _) hmissing h
    -- nothing was at the place, so neither a directory nor a file is lost there
    have hne : ∀ {other n}, t.look other = some n → other ≠ place := by
      rintro _ n hn rfl
      rw [hmissing] at hn
      cases hn
    constructor
    · intro other rights hother
      rw [hlook, if_neg (hne hother), hother]
    · intro other f
      constructor
      · intro hother
        rw [hlook, if_neg (hne hother), hother]
      · intro hother
        rw [hlook] at hother
        split at hother
        · cases hother
        · exact hother

/-- Making directories touches no file. -/
theorem grows_makeDirectories (c : Caller) (t : Tree) (made : Bool) (place : List String)
    (steps : List Step) : t.Grows (c.makeDirectories t made place steps).1 := by
  induction steps generalizing t made place with
  | nil =>
    unfold makeDirectories
    split <;> exact .refl t
  | cons step steps ih =>
    unfold makeDirectories
    split
    · exact .refl t
    · next place' _ =>
      split
      · exact .refl t
      · next t' hmissing => exact (grows_makeMissing hmissing).trans (ih t' _ place')

theorem grows_makeDirectory (c : Caller) (t : Tree) (p : Path) :
    t.Grows (c.makeDirectory t p).1 := by
  unfold makeDirectory
  split
  · exact .refl t
  · split
    · exact .refl t
    · exact grows_makeDirectories ..

/-! ### Walking -/

/-- A step is taken in a directory, and leads to the same place as long as that is there. -/
theorem next_of_keepsDirectories (hkeeps : t.KeepsDirectories t') {step : Step}
    {place' : List String} (h : c.next t place step = .ok place') :
    c.next t' place step = .ok place' := by
  unfold next at h ⊢
  split at h
  · cases h
  · cases h
  · next rights hlook =>
    rw [hkeeps place rights hlook]
    exact h

/-- A walk goes the same way as long as the directories are there. -/
theorem walk_of_keepsDirectories (hkeeps : t.KeepsDirectories t') {steps : List Step}
    {place' : List String} (h : c.walk t place steps = .ok place') :
    c.walk t' place steps = .ok place' := by
  induction steps generalizing place with
  | nil => exact h
  | cons step steps ih =>
    rw [walk, List.foldlM_cons, exceptBind_eq_ok_iff] at h ⊢
    obtain ⟨between, hnext, hwalk⟩ := h
    exact ⟨between, next_of_keepsDirectories hkeeps hnext, ih hwalk⟩

theorem resolve_of_keepsDirectories (hkeeps : t.KeepsDirectories t')
    (h : c.resolve t p = .ok place) : c.resolve t' p = .ok place := by
  unfold resolve at h ⊢
  split at h
  · cases h
  · exact walk_of_keepsDirectories hkeeps h

/-! ### Writing -/

/-- The rights of a file after other content has come into it: its own if it was there. -/
def keptRights (c : Caller) (newMode : Mode) : Option Node → Rights
  | some (.file f) => f.rights
  | _ => c.newRights newMode

theorem keptRights_congr {n n' : Option Node} (h : ∀ f, n = some (.file f) ↔ n' = some (.file f)) :
    c.keptRights newMode n = c.keptRights newMode n' := by
  by_cases hfile : ∃ f, n = some (.file f)
  · obtain ⟨f, rfl⟩ := hfile
    rw [(h f).mp rfl]
  · have hnew : ∀ m : Option Node, (¬ ∃ f, m = some (.file f)) →
        c.keptRights newMode m = c.newRights newMode := by
      rintro (_ | _ | rights) hm
      · rfl
      · exact absurd ⟨_, rfl⟩ hm
      · rfl
    rw [hnew n hfile, hnew n' fun h' => hfile (h'.imp fun f => (h f).mpr)]

/-- What is written is at its place, which was no directory, and nothing else has changed. -/
theorem look_writeAt (h : c.writeAt t place content newMode = .ok t') :
    (∀ rights, t.look place ≠ some (.directory rights)) ∧
      ∀ other, t'.look other = if other = place then
        some (.file ⟨content, c.keptRights newMode (t.look place)⟩) else t.look other := by
  unfold writeAt at h
  split at h
  · next hmissing =>
    rw [hmissing]
    exact ⟨by simp, look_make (Tree.bare_file _) hmissing h⟩
  · cases h
  · next f hfile =>
    split at h
    · cases h
      rw [hfile]
      have hfree : ∀ rights, t.look place ≠ some (.directory rights) := by simp [hfile]
      exact ⟨by simp, Tree.look_insert (Tree.bare_file _) hfree
        (Tree.exists_directory_of_look hfile)⟩
    · cases h

/-- What is written at a path is written at the place where it leads. -/
theorem writeAt_of_write (h : c.write t p content newMode = .ok t') :
    p.closing = .name ∧ ∃ place, c.resolve t p = .ok place ∧
      c.writeAt t place content newMode = .ok t' := by
  unfold write at h
  split at h
  · next hclosing => exact ⟨hclosing, exceptBind_eq_ok_iff.mp h⟩
  · split at h
    · cases h
    · obtain ⟨_, -, hfault⟩ := exceptBind_eq_ok_iff.mp h
      cases hfault
  · obtain ⟨_, -, hfault⟩ := exceptBind_eq_ok_iff.mp h
    cases hfault

/-- What is saved at a path is where the path leads, and no other file is touched. -/
theorem look_save (h : c.save t p content newMode = (t', .ok ())) :
    p.closing = .name ∧ ∃ place, c.resolve t' p = .ok place ∧
      t'.look place = some (.file ⟨content, c.keptRights newMode (t.look place)⟩) ∧
      ∀ other, other ≠ place →
        ∀ f, t'.look other = some (.file f) ↔ t.look other = some (.file f) := by
  have hgrows := c.grows_makeDirectory t p
  unfold save at h
  split at h
  · cases h
  · next made hmade =>
    rw [hmade] at hgrows
    split at h
    · cases h
    · next hwrite =>
      cases h
      obtain ⟨hclosing, place, hplace, hwritten⟩ := writeAt_of_write hwrite
      obtain ⟨hfree, hlook⟩ := look_writeAt hwritten
      have hkeeps : made.KeepsDirectories t' := by
        intro other rights hother
        -- the file is at no place where a directory was
        have hne : other ≠ place := by
          rintro rfl
          exact hfree rights hother
        rw [hlook, if_neg hne, hother]
      refine ⟨hclosing, place, resolve_of_keepsDirectories hkeeps hplace, ?_, ?_⟩
      · rw [hlook, if_pos rfl, keptRights_congr fun f => (hgrows.file_iff place f).symm]
      · intro other hne f
        rw [hlook, if_neg hne]
        exact (hgrows.file_iff other f).symm

/-- What cannot be saved may leave directories behind, but no file is touched. -/
theorem grows_of_save_error {fault : IoFault}
    (h : c.save t p content newMode = (t', .error fault)) : t.Grows t' := by
  have hgrows := c.grows_makeDirectory t p
  unfold save at h
  split at h
  · next hmade =>
    rw [hmade] at hgrows
    cases h
    exact hgrows
  · next hmade =>
    rw [hmade] at hgrows
    split at h
    · cases h
      exact hgrows
    · cases h

/-! ### Reading -/

end Caller

end Files

end SigningKeys
