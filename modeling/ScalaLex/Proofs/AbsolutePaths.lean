import ScalaLex.Proofs.EntryPaths

/-!
# Absolute paths

The absolute path of what a path leads to is made by a walk that looks up every place on its way by
its own absolute path. Such a walk ends where the walk without these looks does, or at a place that
cannot be looked up (`FileTree.follow_eq_or_nameTooLong`), so a path that leads somewhere has the
absolute path of that place or none (`FileTree.realPath_of_resolve`). It has none if that place is
too far from the root (`FileTree.realPath_of_extent`).

The absolute path ends with the name of the place, and has its extension
(`FileTree.extension?_canonical`).
-/

namespace ScalaLex

namespace FileTree

open ScalaLex.Path (isName)

variable {t : FileTree} {allowed : Trail → List String → Bool} {links : Nat} {here there : Trail}
  {ns : List String} {path name : String} {node : Node}

/-! ## Walks that look at places -/

/-- A walk that looks at the places on its way ends as one that does not, or at a place that is not
allowed. -/
theorem walk_eq_or_nameTooLong (t : FileTree) (allowed : Trail → List String → Bool) (links : Nat)
    (here : Trail) (ns : List String) :
    t.walk allowed links here ns = t.walk anywhere links here ns ∨
      t.walk allowed links here ns = .error .nameTooLong := by
  fun_induction walk t allowed links here ns with
  | case1 links here => exact Or.inl (by rw [walk])
  | case2 links here name rest hdirectory => exact Or.inl (by rw [walk, if_pos hdirectory])
  | case3 links here name rest hdirectory hhere ih =>
    rwa [walk, if_neg hdirectory, if_pos hhere]
  | case4 links here name rest hdirectory hhere hup ih =>
    rwa [walk, if_neg hdirectory, if_neg hhere, if_pos hup]
  | case5 | case7 | case10 => exact Or.inr rfl
  | case6 links here name rest hdirectory hhere hup hshort hfind =>
    refine Or.inl ?_
    rw [walk, if_neg hdirectory, if_neg hhere, if_neg hup, if_neg hshort, hfind]
  | case8 here name rest hdirectory hhere hup hshort name' target hfind hallowed =>
    refine Or.inl ?_
    rw [walk, if_neg hdirectory, if_neg hhere, if_neg hup, if_neg hshort, hfind]
    rfl
  | case9 here name rest hdirectory hhere hup hshort name' target hfind hallowed links ih =>
    rw [walk, if_neg hdirectory, if_neg hhere, if_neg hup, if_neg hshort, hfind]
    exact ih
  | case11 links here name rest hdirectory hhere hup hshort entry hlink hfind hallowed ih =>
    rw [walk, if_neg hdirectory, if_neg hhere, if_neg hup, if_neg hshort, hfind]
    split
    · rename_i heq
      cases heq
    · rename_i heq
      exact absurd (Option.some.inj heq) (hlink _ _)
    · rename_i heq
      cases heq
      exact ih

/-- What holds of every place that is allowed, and with a place of those around it, holds of the
place at the end of a walk. -/
theorem walk_induction {P : Trail → Prop}
    (hallowed : ∀ {here rest}, allowed here rest = true → P here)
    (hout : ∀ {here}, P here → P here.tail) (hroot : P [])
    (h : t.walk allowed links here ns = .ok there) (hhere : P here) : P there := by
  fun_induction walk t allowed links here ns with
  | case1 links here =>
    cases h
    exact hhere
  | case3 links here name rest hdirectory hname ih => exact ih h hhere
  | case4 links here name rest hdirectory hname hup ih => exact ih h (hout hhere)
  | case9 here name rest hdirectory hname hup hshort name' target hfind hplace links ih =>
    refine ih h ?_
    split
    · exact hroot
    · exact hhere
  | case11 links here name rest hdirectory hname hup hshort entry hlink hfind hplace ih =>
    exact ih h (hallowed (by simpa using hplace))
  | _ => cases h

/-- A path is followed to where it leads, or to a place on the way that is not allowed. -/
theorem follow_eq_or_nameTooLong (t : FileTree) (allowed : Trail → List String → Bool)
    (path : String) :
    t.follow allowed path = t.resolve path ∨ t.follow allowed path = .error .nameTooLong := by
  rw [resolve, follow, follow]
  split
  · exact Or.inl rfl
  split
  · exact Or.inl rfl
  split
  · exact Or.inl rfl
  · exact walk_eq_or_nameTooLong t allowed _ _ _

/-! ## The absolute path of a place -/

/-- A path that leads to a place has its absolute path or none. -/
theorem realPath_of_resolve (h : t.resolve path = .ok here) :
    t.realPath path = .ok (canonical here) ∨ t.realPath path = .error .nameTooLong := by
  rw [realPath]
  rcases follow_eq_or_nameTooLong t isNameable path with hsame | hlong
  · rw [hsame, h]
    exact Or.inl rfl
  · rw [hlong]
    exact Or.inr rfl

/-- A place that is too far from the root has no absolute path. -/
theorem realPath_of_extent (h : t.resolve path = .ok here) (hstart : extent t.start ≤ maxPath)
    (hlong : maxPath < extent here) : t.realPath path = .error .nameTooLong := by
  refine (realPath_of_resolve h).resolve_left fun hreal => ?_
  rw [realPath] at hreal
  cases hfollow : t.follow isNameable path with
  | error e =>
    rw [hfollow] at hreal
    cases hreal
  | ok there =>
    have hsame : there = here := by
      rcases follow_eq_or_nameTooLong t isNameable path with heq | hlong
      · exact Except.ok.inj (hfollow.symm.trans (heq.trans h))
      · cases hfollow.symm.trans hlong
    subst hsame
    refine absurd ?_ (Nat.not_le_of_lt hlong)
    -- no place that the walk comes to is too far from the root
    refine walk_induction (P := fun here => extent here ≤ maxPath) ?_ ?_ (Nat.zero_le _)
      (follow_eq_ok_iff.1 hfollow).2 ?_
    · intro here rest hallowed
      exact Nat.le_trans (Nat.le_add_right _ _) (of_decide_eq_true hallowed)
    · rintro (- | ⟨⟨name, node⟩, rest⟩) hhere
      · exact hhere
      · rw [extent] at hhere
        rw [List.tail_cons]
        omega
    · split
      · exact Nat.zero_le _
      · exact hstart

/-- An absolute path has the extension of the name of the place. -/
theorem extension?_canonical (here : Trail) (hname : isName name = true) :
    Path.extension? (canonical ((name, node) :: here)) = Path.extensionOfName? name := by
  rw [canonical, List.map_cons, List.reverse_cons, Path.extension?_absolute _ hname]

end FileTree

end ScalaLex
