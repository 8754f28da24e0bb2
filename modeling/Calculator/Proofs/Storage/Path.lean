import Calculator.Storage.Path
import Calculator.Proofs.Text
import Mathlib.Data.List.TakeWhile
import Mathlib.Tactic.Tauto

/-!
# The last name of a path

A path with a last name is what comes before the name, the name, and slashes and lone points. Seen
as parts, it is the parts before the name, the name, and single points. The temporary path keeps
what comes before and has another name, whatever the ending of the name is.
-/

namespace Calculator.Path

/-- Slashes and lone points, as they may follow the last name of a path. -/
inductive IsTrail : Text → Prop
  | nil : IsTrail []
  | slash {trail : Text} (h : IsTrail trail) : IsTrail (trail ++ ['/'])
  | point {trail : Text} (h : IsTrail trail) : IsTrail (trail ++ ['/', '.'])

/-- A path is cut before and after a name, which may also be two points. -/
structure Splits (path front name trail : Text) : Prop where
  eq : path = front ++ name ++ trail
  front : front = [] ∨ ∃ before, front = before ++ ['/']
  noSlash : '/' ∉ name
  ne_nil : name ≠ []
  ne_point : name ≠ ['.']
  trail : IsTrail trail

/-! ## Trails -/

theorem IsTrail.take {trail : Text} (h : IsTrail trail) (count : Nat) :
    IsTrail (trail.take count) := by
  induction h with
  | nil =>
    rw [List.take_nil]
    exact .nil
  | @slash trail h ih =>
    rcases Nat.lt_or_ge trail.length count with hlt | hle
    · rw [List.take_of_length_le (by simp; omega)]
      exact h.slash
    · rwa [List.take_append_of_le_length hle]
  | @point trail h ih =>
    rcases Nat.lt_or_ge trail.length count with hlt | hle
    · obtain ⟨more, rfl⟩ : ∃ more, count = trail.length + (more + 1) :=
        ⟨count - trail.length - 1, by omega⟩
      rw [List.take_length_add_append]
      cases more with
      | zero => exact h.slash
      | succ more =>
        rw [List.take_of_length_le (Nat.le_add_left 2 more)]
        exact h.point
    · rwa [List.take_append_of_le_length hle]

theorem IsTrail.skipEnd_append {trail : Text} (h : IsTrail trail) (s : Text) :
    skipEnd (trail.reverse ++ s) = skipEnd s := by
  induction h with
  | nil => rfl
  | slash h ih =>
    rw [List.reverse_append, List.append_assoc]
    exact ih
  | point h ih =>
    rw [List.reverse_append, List.append_assoc]
    exact ih

/-- What is skipped at the end of a path is a trail. -/
theorem exists_trail (reversed : Text) :
    ∃ trail, IsTrail trail ∧ reversed = trail.reverse ++ skipEnd reversed := by
  fun_induction skipEnd reversed with
  | case1 s ih =>
    obtain ⟨trail, htrail, heq⟩ := ih
    exact ⟨_, htrail.slash, by simp [← heq]⟩
  | case2 s ih =>
    obtain ⟨trail, htrail, heq⟩ := ih
    exact ⟨_, htrail.point, by simp [← heq]⟩
  | case3 s => exact ⟨[], .nil, rfl⟩

/-- Nothing is skipped after a name. -/
theorem skipEnd_reverse_append {name : Text} (hslash : '/' ∉ name) (hnil : name ≠ [])
    (hpoint : name ≠ ['.']) (s : Text) : skipEnd (name.reverse ++ s) = name.reverse ++ s := by
  have hmem : '/' ∉ name.reverse := by simpa using hslash
  have hnil : name.reverse ≠ [] := by simpa using hnil
  have hpoint : name.reverse ≠ ['.'] := by
    intro h
    exact hpoint (by simpa using congrArg List.reverse h)
  generalize name.reverse = reversed at *
  obtain ⟨c, reversed, rfl⟩ := List.exists_cons_of_ne_nil hnil
  rw [List.mem_cons, not_or] at hmem
  apply skipEnd.eq_3
  · rintro rest h
    exact hmem.1 (List.cons.inj h).1.symm
  · rintro rest h
    obtain ⟨rfl, htail⟩ := List.cons.inj h
    cases reversed with
    | nil => exact hpoint rfl
    | cons d reversed =>
      obtain ⟨rfl, -⟩ := List.cons.inj htail
      exact hmem.2 List.mem_cons_self

/-! ## Cutting a path -/

theorem bne_of_not_mem {c : Char} {s : Text} (h : c ∉ s) : ∀ d ∈ s.reverse, (d != c) = true := by
  intro d hd
  rw [bne_iff_ne]
  rintro rfl
  exact h (List.mem_reverse.mp hd)

theorem not_mem_takeWhile_ne (c : Char) (s : Text) : c ∉ (s.takeWhile (· != c)).reverse := by
  intro hmem
  rw [List.mem_reverse] at hmem
  exact absurd (List.mem_takeWhile_imp hmem) (by simp)

theorem dropWhile_ne_eq (c : Char) (s : Text) :
    s.dropWhile (· != c) = [] ∨ ∃ rest, s.dropWhile (· != c) = c :: rest := by
  have hhead := List.head?_dropWhile_not (· != c) s
  cases hdrop : s.dropWhile (· != c) with
  | nil => exact .inl rfl
  | cons d rest =>
    rw [hdrop] at hhead
    have hd : d = c := by simpa using hhead
    exact .inr ⟨rest, by rw [hd]⟩

variable {path front n trail : Text}

theorem Splits.skipEnd_eq (h : Splits path front n trail) :
    skipEnd path.reverse = n.reverse ++ front.reverse := by
  rw [h.eq, List.reverse_append, List.reverse_append, h.trail.skipEnd_append,
    skipEnd_reverse_append h.noSlash h.ne_nil h.ne_point]

/-- A name ends where a slash comes, or where nothing is left. -/
theorem Splits.takeWhile_eq (h : Splits path front n trail) :
    (n.reverse ++ front.reverse).takeWhile (· != '/') = n.reverse ∧
      (n.reverse ++ front.reverse).dropWhile (· != '/') = front.reverse := by
  have hname := bne_of_not_mem h.noSlash
  rw [List.takeWhile_append_of_pos hname, List.dropWhile_append_of_pos hname]
  rcases h.front with hfront | ⟨before, hfront⟩
  · simp [hfront]
  · simp [hfront]

theorem Splits.name_eq (h : Splits path front n trail) : name path = n := by
  rw [name, h.skipEnd_eq, h.takeWhile_eq.1, List.reverse_reverse]

theorem Splits.folder_eq (h : Splits path front n trail) : folder path = front := by
  rw [folder, h.skipEnd_eq, h.takeWhile_eq.2, List.reverse_reverse]

theorem isName_iff {part : Text} : isName part = true ↔ part ≠ [] ∧ part ≠ "." ∧ part ≠ ".." := by
  simp [isName]

theorem not_isName_iff {part : Text} :
    ¬isName part = true ↔ part = [] ∨ part = "." ∨ part = ".." := by
  rw [isName_iff]
  tauto

theorem isName_of_length {part : Text} (h : 2 < part.length) : isName part = true := by
  rw [isName_iff]
  refine ⟨?_, ?_, ?_⟩ <;> rintro rfl <;> revert h <;> decide

theorem skipEnd_eq (path : Text) :
    skipEnd path.reverse = (name path).reverse ++ (folder path).reverse := by
  rw [name, folder, List.reverse_reverse, List.reverse_reverse, List.takeWhile_append_dropWhile]

theorem slash_not_mem_name (path : Text) : '/' ∉ name path :=
  not_mem_takeWhile_ne '/' _

theorem folder_cases (path : Text) :
    folder path = [] ∨ ∃ before, folder path = before ++ ['/'] := by
  rw [folder]
  rcases dropWhile_ne_eq '/' (skipEnd path.reverse) with hdrop | ⟨before, hdrop⟩
  · exact .inl (by rw [hdrop, List.reverse_nil])
  · exact .inr ⟨before.reverse, by rw [hdrop, List.reverse_cons]⟩

theorem exists_trail_of_path (path : Text) :
    ∃ trail, IsTrail trail ∧ path = folder path ++ name path ++ trail := by
  obtain ⟨trail, htrail, heq⟩ := exists_trail path.reverse
  rw [skipEnd_eq] at heq
  exact ⟨trail, htrail, by simpa using congrArg List.reverse heq⟩

/-- A path is cut at its last name, which may also be two points. -/
theorem exists_splits (hnil : name path ≠ []) (hpoint : name path ≠ ['.']) :
    ∃ trail, Splits path (folder path) (name path) trail := by
  obtain ⟨trail, htrail, heq⟩ := exists_trail_of_path path
  exact ⟨trail, heq, folder_cases path, slash_not_mem_name path, hnil, hpoint, htrail⟩

theorem exists_splits_of_isName (h : isName (name path) = true) :
    ∃ trail, Splits path (folder path) (name path) trail :=
  exists_splits (isName_iff.mp h).1 (isName_iff.mp h).2.1

theorem skipEnd_ne (reversed s : Text) :
    skipEnd reversed ≠ '/' :: s ∧ skipEnd reversed ≠ '.' :: '/' :: s := by
  fun_induction skipEnd reversed with
  | case1 _ ih => exact ih
  | case2 _ ih => exact ih
  | case3 _ hslash hpoint => exact ⟨fun h => hslash s h, fun h => hpoint s h⟩

/-- Nothing comes before a lone point, or before nothing, that stands for a last name. -/
theorem folder_eq_nil (h : name path = [] ∨ name path = ['.']) : folder path = [] := by
  rcases folder_cases path with hfolder | ⟨before, hfolder⟩
  · exact hfolder
  · have hskip := skipEnd_eq path
    rw [hfolder, List.reverse_concat] at hskip
    rcases h with h | h
    · exact absurd (by rw [hskip, h]; rfl) (skipEnd_ne path.reverse before.reverse).1
    · exact absurd (by rw [hskip, h]; rfl) (skipEnd_ne path.reverse before.reverse).2

/-! ## The parts of a path -/

theorem parts_append_slash (s t : Text) : parts (s ++ '/' :: t) = parts s ++ parts t := by
  rw [parts, Text.splitAtChar, List.splitOnP_append_cons s t (by simp), List.filter_append]
  rfl

theorem parts_nil : parts [] = [] := rfl

theorem parts_name (hslash : '/' ∉ n) (hnil : n ≠ []) : parts n = [n] := by
  rw [parts, Text.splitAtChar_of_not_mem hslash, List.filter_cons_of_pos (by simpa using hnil),
    List.filter_nil]

/-- Slashes and lone points at the end of a path are nothing but single points among its parts. -/
theorem IsTrail.parts_append (h : IsTrail trail) (s : Text) :
    ∃ points, parts (s ++ trail) = parts s ++ List.replicate points ['.'] := by
  induction h with
  | nil => exact ⟨0, by simp⟩
  | slash h ih =>
    obtain ⟨points, ih⟩ := ih
    refine ⟨points, ?_⟩
    rw [← List.append_assoc, parts_append_slash, ih]
    exact List.append_nil _
  | point h ih =>
    obtain ⟨points, ih⟩ := ih
    refine ⟨points + 1, ?_⟩
    rw [← List.append_assoc, parts_append_slash, ih, List.replicate_succ', List.append_assoc]
    rfl

/-- The parts of a path are those before its last name, the name, and single points. -/
theorem Splits.parts_eq (h : Splits path front n trail) :
    ∃ points, parts path = parts front ++ n :: List.replicate points ['.'] := by
  obtain ⟨rfl, hfront, hslash, hnil, -, htrail⟩ := h
  obtain ⟨points, hpoints⟩ := htrail.parts_append (front ++ n)
  refine ⟨points, ?_⟩
  rw [hpoints, List.append_cons, ← parts_name hslash hnil]
  rcases hfront with rfl | ⟨before, rfl⟩
  · rfl
  · rw [List.append_assoc, List.singleton_append, parts_append_slash, parts_append_slash,
      parts_nil, List.append_nil]

theorem getLastD_concat_points (before : List Text) (part : Text) (points : Nat) :
    (before ++ part :: List.replicate points ['.']).getLastD "." = part ∨
      (before ++ part :: List.replicate points ['.']).getLastD "." = ['.'] := by
  cases points with
  | zero => exact .inl (List.getLastD_concat ..)
  | succ points =>
    rw [List.replicate_succ', List.append_cons, ← List.append_assoc]
    exact .inr (List.getLastD_concat ..)

/-- A path without a name before its end has no parts but points. -/
theorem exists_parts_eq (h : name path = [] ∨ name path = ['.']) :
    ∃ points, parts path = List.replicate points ['.'] := by
  obtain ⟨trail, htrail, heq⟩ := exists_trail_of_path path
  rw [folder_eq_nil h, List.nil_append] at heq
  obtain ⟨points, hparts⟩ := htrail.parts_append (name path)
  rw [← heq] at hparts
  rcases h with h | h
  · exact ⟨points, by rw [hparts, h]; rfl⟩
  · exact ⟨points + 1, by rw [hparts, h]; rfl⟩

/-- A path whose last part is a name has a last name. -/
theorem isName_of_last (h : isName ((parts path).getLastD ".") = true) :
    isName (name path) = true := by
  by_contra hname
  by_cases hpoint : name path = [] ∨ name path = ['.']
  · obtain ⟨points, hparts⟩ := exists_parts_eq hpoint
    have hlast : (parts path).getLastD "." = "." := by
      cases points <;> simp [hparts, List.getLast?_replicate]
    rw [hlast] at h
    cases h
  · rw [not_or] at hpoint
    obtain ⟨trail, hsplits⟩ := exists_splits hpoint.1 hpoint.2
    obtain ⟨points, hparts⟩ := hsplits.parts_eq
    rw [hparts] at h
    rcases getLastD_concat_points (parts (folder path)) (name path) points with hlast | hlast
    · rw [hlast] at h
      exact hname h
    · rw [hlast] at h
      cases h

theorem Splits.isAbsolute_eq (h : Splits path front n trail) :
    isAbsolute path = isAbsolute front := by
  obtain ⟨rfl, hfront, hslash, hnil, -, -⟩ := h
  rcases hfront with rfl | ⟨before, rfl⟩
  · obtain ⟨c, n, rfl⟩ := List.exists_cons_of_ne_nil hnil
    simp only [List.mem_cons, not_or] at hslash
    simpa [isAbsolute] using Ne.symm hslash.1
  · cases before <;> rfl

/-! ## The temporary path -/

theorem stem_append {s e : Text} (hs : s ≠ []) (he : '.' ∉ e) : stem (s ++ '.' :: e) = s := by
  obtain ⟨c, before, hbefore⟩ := List.exists_cons_of_ne_nil (mt List.reverse_eq_nil_iff.mp hs)
  have hdrop : (s ++ '.' :: e).reverse.dropWhile (· != '.') = '.' :: c :: before := by
    rw [List.reverse_append, List.reverse_cons, List.append_assoc,
      List.dropWhile_append_of_pos (bne_of_not_mem he), hbefore]
    rfl
  simp only [stem, hdrop]
  rw [← hbefore, List.reverse_reverse]

/-- A name is all stem, or its stem, a point and an ending without points. -/
theorem stem_cases (name : Text) :
    (stem name = name ∧ ending name = []) ∨
      name = stem name ++ '.' :: ending name ∧ '.' ∉ ending name ∧ stem name ≠ [] := by
  have hwhole (h : stem name = name) : stem name = name ∧ ending name = [] :=
    ⟨h, by rw [ending, h, List.drop_of_length_le (Nat.le_succ _)]⟩
  rcases dropWhile_ne_eq '.' name.reverse with hdrop | ⟨_ | ⟨c, before⟩, hdrop⟩
  · exact .inl (hwhole (by simp only [stem, hdrop]))
  · exact .inl (hwhole (by simp only [stem, hdrop]))
  · right
    -- the last point of the name is not its first character
    have hcut : name.reverse.takeWhile (· != '.') ++ '.' :: c :: before = name.reverse := by
      rw [← hdrop, List.takeWhile_append_dropWhile]
    generalize hrest : name.reverse.takeWhile (· != '.') = rest at hcut
    have hname : name = (c :: before).reverse ++ '.' :: rest.reverse := by
      rw [← List.reverse_reverse name, ← hcut]
      simp
    have hpoint : '.' ∉ rest.reverse := hrest ▸ not_mem_takeWhile_ne '.' _
    have hstem : stem name = (c :: before).reverse := by
      rw [hname]
      exact stem_append (by simp) hpoint
    have hending : ending name = rest.reverse := by
      rw [ending, hstem, hname, List.append_cons, List.drop_left' (by simp)]
    rw [hstem, hending]
    exact ⟨hname, hpoint, by simp⟩

/-- No name is its own stem with the temporary ending. -/
theorem stem_append_ne (name : Text) : stem name ++ ".json.tmp" ≠ name := by
  intro h
  have hstem : stem (stem name ++ ".json.tmp") = stem name ++ ".json" := by
    have hcut : stem name ++ ".json.tmp" = (stem name ++ ".json") ++ '.' :: "tmp" := by simp
    rw [hcut]
    exact stem_append (by simp) (by decide)
  rw [h] at hstem
  simpa using congrArg List.length hstem

/-- A path without the ending of its name, of which slashes may have saved some characters. -/
theorem Splits.of_withoutEnding (h : Splits path front n trail)
    (hn : n = stem n ++ '.' :: ending n) (hstem : stem n ≠ []) :
    Splits (withoutEnding path) front (stem n ++ '.' :: (ending n).take trail.length)
      (trail.take (trail.length - (ending n).length)) := by
  have hslash := h.noSlash
  rw [hn, List.mem_append, List.mem_cons, not_or, not_or] at hslash
  refine ⟨?_, h.front, ?_, by simp, ?_, h.trail.take _⟩
  · have hpath : path = (front ++ stem n ++ ['.']) ++ (ending n ++ trail) := by
      rw [h.eq]
      conv => lhs; rw [hn]
      simp
    have hlength : path.length - (ending n).length =
        (front ++ stem n ++ ['.']).length + trail.length := by
      rw [hpath]
      simp only [List.length_append]
      omega
    rw [withoutEnding, h.name_eq, hlength]
    conv => lhs; rw [hpath]
    rw [List.take_length_add_append, List.take_append]
    simp
  · rw [List.mem_append, List.mem_cons, not_or, not_or]
    exact ⟨hslash.1, hslash.2.1, fun hmem => hslash.2.2 (List.mem_of_mem_take hmem)⟩
  · intro heq
    have hlength := congrArg List.length heq
    have hpos := List.length_pos_iff.mpr hstem
    simp only [List.length_append, List.length_cons, List.length_nil] at hlength
    omega

theorem not_mem_stem {c : Char} (h : c ∉ n) : c ∉ stem n := by
  rcases stem_cases n with ⟨hstem, -⟩ | ⟨hn, -, -⟩
  · rwa [hstem]
  · rw [hn, List.mem_append, not_or] at h
    exact h.1

/-- Without its ending a name keeps its stem, and is two points only at the end of the path. -/
theorem Splits.exists_withoutEnding (h : Splits path front n trail) (hn : isName n = true) :
    ∃ left rest, Splits (withoutEnding path) front left rest ∧ stem left = stem n ∧
      (left = ".." → rest = []) := by
  rcases stem_cases n with ⟨hstem, hending⟩ | ⟨heq, hpoint, hstem⟩
  · refine ⟨n, trail, ?_, rfl, ?_⟩
    · rw [withoutEnding, h.name_eq, hending, List.length_nil, Nat.sub_zero, List.take_length]
      exact h
    · rintro rfl
      cases hn
  · refine ⟨_, _, h.of_withoutEnding heq hstem, ?_, ?_⟩
    · exact stem_append hstem fun hmem => hpoint (List.mem_of_mem_take hmem)
    · intro hpoints
      -- the stem is one point, and its ending has a character that no slash has saved
      have hlength := congrArg List.length hpoints
      have hpos := List.length_pos_iff.mpr hstem
      have hending : ending n ≠ [] := by
        intro hending
        rw [hending, List.take_nil, ← hending, ← heq] at hpoints
        rw [hpoints] at hn
        cases hn
      have hrest := List.length_pos_iff.mpr hending
      simp only [List.length_append, List.length_cons, List.length_take] at hlength
      have htrail : trail.length = 0 := by
        have htwo : ("..".toList).length = 2 := rfl
        omega
      rw [List.length_eq_zero_iff.mp htrail, List.take_nil]

/-- The temporary path is cut at the same place, before another name. Of the name of two points and
an ending only the two points are left. -/
theorem Splits.of_temporary (h : Splits path front n trail) (hn : isName n = true) :
    Splits (temporary path) front (stem n ++ ".json.tmp") [] ∨
      (stem n = "." ∧ Splits (temporary path) front ".." []) := by
  obtain ⟨left, rest, hleft, hstem, hpoints⟩ := h.exists_withoutEnding hn
  simp only [temporary, hleft.name_eq, hleft.folder_eq, hstem]
  split
  · left
    refine ⟨by simp, h.front, ?_, by simp, ?_, .nil⟩
    · rw [List.mem_append, not_or]
      exact ⟨not_mem_stem h.noSlash, by decide⟩
    · intro heq
      simpa using congrArg List.length heq
  · rename_i hname
    right
    have htwo : left = ".." := by
      rcases not_isName_iff.mp hname with hname | hname | hname
      · exact absurd hname hleft.ne_nil
      · exact absurd hname hleft.ne_point
      · exact hname
    rw [htwo, hpoints htwo] at hleft
    exact ⟨by rw [← hstem, htwo]; rfl, hleft⟩

/-- The temporary path is another path. -/
theorem temporary_ne (h : isName (name path) = true) : temporary path ≠ path := by
  obtain ⟨trail, hsplits⟩ := exists_splits_of_isName h
  intro heq
  rcases hsplits.of_temporary h with htemporary | ⟨-, htemporary⟩
  · have hname := htemporary.name_eq
    rw [heq] at hname
    exact stem_append_ne _ hname.symm
  · have hname := htemporary.name_eq
    rw [heq] at hname
    rw [hname] at h
    cases h

/-- A path without a last name is its own temporary path. -/
theorem temporary_of_not_isName (h : ¬isName (name path) = true) : temporary path = path := by
  have hending : ending (name path) = [] := by
    rcases not_isName_iff.mp h with hname | hname | hname <;> rw [hname] <;> rfl
  have hleft : withoutEnding path = path := by
    rw [withoutEnding, hending, List.length_nil, Nat.sub_zero, List.take_length]
  simp only [temporary, hleft]
  exact if_neg h

end Calculator.Path
