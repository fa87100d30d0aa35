/-
Paths and the names that they are made of.

Joining names with slashes and cutting the path at its slashes are inverse
(`components_joinWith`), and a path that is joined to a directory adds its components to
those of the directory (`components_join`). So the extension of a path is that of its last
name, wherever the path is seen from (`ofPath?_join`, `ofPath?_joinWith`); which names have
a known one is said without the look-up (`isSome_ofPath?_iff`). The characters of a component
are characters of the path (`not_mem_of_mem_components`), so that none is a backslash where
backslashes have been turned into slashes (`not_mem_normalize`).
-/
import Mathlib.Data.List.Basic
import Mathlib.Data.List.TakeWhile
import YieldLint.Language
import YieldLint.Table
import YieldLint.Text.Lines

namespace YieldLint

namespace Path

/-! ## Cutting and joining -/

theorem splitSlash_ne_nil (cs : List Char) : splitSlash cs ≠ [] := by
  cases cs with
  | nil => simp [splitSlash]
  | cons c cs =>
    rw [splitSlash]
    split
    · exact List.cons_ne_nil _ _
    · split <;> exact List.cons_ne_nil _ _

theorem splitSlash_append (as bs : List Char) :
    splitSlash (as ++ '/' :: bs) = splitSlash as ++ splitSlash bs := by
  induction as with
  | nil => simp [splitSlash]
  | cons c as ih =>
    rw [List.cons_append, splitSlash, splitSlash, ih]
    by_cases hc : c = '/'
    · simp [hc]
    · rw [if_neg hc, if_neg hc]
      cases h : splitSlash as with
      | nil => exact absurd h (splitSlash_ne_nil as)
      | cons first rest => rfl

theorem splitSlash_of_not_mem {cs : List Char} (h : '/' ∉ cs) : splitSlash cs = [cs] := by
  induction cs with
  | nil => rfl
  | cons c cs ih =>
    obtain ⟨hc, hcs⟩ := not_or.1 (mt List.mem_cons.2 h)
    rw [splitSlash, if_neg (Ne.symm hc), ih hcs]

/-- The pieces hold the characters of the whole. -/
theorem mem_of_mem_splitSlash {piece cs : List Char} {c : Char} (hpiece : piece ∈ splitSlash cs)
    (hc : c ∈ piece) : c ∈ cs := by
  induction cs generalizing piece with
  | nil =>
    rw [splitSlash, List.mem_singleton] at hpiece
    exact hpiece ▸ hc
  | cons d cs ih =>
    rw [splitSlash] at hpiece
    split at hpiece
    · rcases List.mem_cons.1 hpiece with rfl | hpiece
      · cases hc
      · exact List.mem_cons_of_mem d (ih hpiece hc)
    · split at hpiece
      · rename_i h
        exact absurd h (splitSlash_ne_nil cs)
      · rename_i first rest h
        rcases List.mem_cons.1 hpiece with rfl | hpiece
        · rcases List.mem_cons.1 hc with rfl | hc
          · exact List.mem_cons_self
          · exact List.mem_cons_of_mem d (ih (h ▸ List.mem_cons_self) hc)
        · exact List.mem_cons_of_mem d (ih (h ▸ List.mem_cons_of_mem _ hpiece) hc)

theorem components_append (a b : String) :
    components (a ++ "/" ++ b) = components a ++ components b := by
  rw [components, components, components, ← List.map_append, ← splitSlash_append,
    String.toList_append, String.toList_append]
  simp

theorem components_of_not_mem {name : String} (h : '/' ∉ name.toList) :
    components name = [name] := by
  rw [components, splitSlash_of_not_mem h, List.map_singleton, String.ofList_toList]

theorem components_ne_nil (path : String) : components path ≠ [] :=
  mt List.map_eq_nil_iff.1 (splitSlash_ne_nil path.toList)

/-- The components of names that are joined are the names. -/
theorem components_joinWith {names : List String} (hne : names ≠ [])
    (h : ∀ name ∈ names, '/' ∉ name.toList) : components (Text.joinWith "/" names) = names := by
  induction names with
  | nil => exact absurd rfl hne
  | cons name rest ih =>
    have hname := components_of_not_mem (h name List.mem_cons_self)
    cases rest with
    | nil => exact hname
    | cons next rest =>
      have hrest := ih (List.cons_ne_nil _ _) fun n hn => h n (List.mem_cons_of_mem _ hn)
      rw [Text.joinWith, components_append, hname, hrest, List.singleton_append]
      exact nofun

/-! ## A path seen from a directory -/

theorem isAbsolute_append {a : String} (h : a ≠ "") (b : String) :
    isAbsolute (a ++ b) = isAbsolute a := by
  rw [isAbsolute, isAbsolute, String.toList_append, List.head?_append_of_ne_nil]
  exact mt String.toList_eq_nil_iff.1 h

/-- A relative path adds its components to those of the directory, where a slash at the end
of the directory makes no difference. -/
theorem components_join {directory path : String} (hdirectory : directory ≠ "")
    (hpath : isAbsolute path = false) : ∃ front,
      (components directory = front ∨ components directory = front ++ [""]) ∧
      components (join directory path) = front ++ components path := by
  rw [join, hpath, if_neg Bool.false_ne_true]
  by_cases hslash : directory.toList.getLast? = some '/'
  · rw [if_pos (.inr hslash)]
    obtain ⟨front, hfront⟩ := List.getLast?_eq_some_iff.1 hslash
    have hsplit : directory = String.ofList front ++ "/" ++ "" := by
      rw [← String.toList_inj, hfront]
      simp
    refine ⟨components (String.ofList front), .inr ?_, ?_⟩
    · rw [hsplit, components_append]
      rfl
    · rw [hsplit, String.append_empty, components_append]
  · rw [if_neg (not_or.2 ⟨hdirectory, hslash⟩)]
    exact ⟨components directory, .inl rfl, components_append directory path⟩

theorem baseName_join (directory path : String) : baseName (join directory path) = baseName path := by
  cases hpath : isAbsolute path with
  | true => rw [join, hpath, if_pos rfl]
  | false =>
    by_cases hdirectory : directory = ""
    · simp [join, hpath, hdirectory]
    · obtain ⟨front, -, hjoin⟩ := components_join hdirectory hpath
      rw [baseName, baseName, hjoin, List.getLast?_append_of_ne_nil _ (components_ne_nil path)]

/-- The last of names that are joined, without a slash in any of them, is the base name. -/
theorem baseName_joinWith {dirs : List String} {name : String}
    (h : ∀ n ∈ dirs ++ [name], '/' ∉ n.toList) :
    baseName (Text.joinWith "/" (dirs ++ [name])) = name := by
  rw [baseName, components_joinWith (by simp) h]
  simp

/-! ## Extensions -/

/-- The extension of a name that has one. -/
theorem extension_eq {path : String} {stem ext : List Char}
    (h : (baseName path).toList = stem ++ '.' :: ext) (hstem : ∃ c ∈ stem, c ≠ '.')
    (hext : '.' ∉ ext) : extension path = String.ofList ('.' :: ext.map Char.toLower) := by
  obtain ⟨c, hc, hdot⟩ := hstem
  have hne : (stem.dropWhile (· == '.')).isEmpty = false := by
    rw [List.isEmpty_eq_false_iff, ne_eq, List.dropWhile_eq_nil_iff]
    exact fun hdots => hdot (by simpa using hdots c hc)
  have hdrop : (baseName path).toList.dropWhile (· == '.') =
      stem.dropWhile (· == '.') ++ '.' :: ext := by
    rw [h, List.dropWhile_append, hne, if_neg Bool.false_ne_true]
  have htake : (ext.reverse ++ '.' :: (stem.dropWhile (· == '.')).reverse).takeWhile (· != '.') =
      ext.reverse := by
    have hall : ∀ d ∈ ext.reverse, (d != '.') = true := fun d hd =>
      bne_iff_ne.2 fun he => hext (he ▸ List.mem_reverse.1 hd)
    rw [List.takeWhile_append_of_pos hall, List.takeWhile_cons_of_neg (by decide), List.append_nil]
  rw [extension, hdrop]
  simp [htake]

/-- A name with an extension has a dot behind something other than dots. -/
theorem exists_of_extension_ne {path : String} (h : extension path ≠ "") :
    ∃ stem ext, (baseName path).toList = stem ++ '.' :: ext ∧ (∃ c ∈ stem, c ≠ '.') ∧
      '.' ∉ ext := by
  rw [extension] at h
  split at h
  case isFalse => exact absurd rfl h
  rename_i hmem
  obtain ⟨back, front, hsplit, hback⟩ := List.eq_append_cons_of_mem (List.mem_reverse.2 hmem)
  have hname : (baseName path).toList.dropWhile (· == '.') =
      front.reverse ++ '.' :: back.reverse := by
    rw [← List.reverse_reverse ((baseName path).toList.dropWhile _), hsplit]
    simp
  refine ⟨(baseName path).toList.takeWhile (· == '.') ++ front.reverse, back.reverse, ?_, ?_,
    fun hdot => hback (List.mem_reverse.1 hdot)⟩
  · rw [List.append_assoc, ← hname, List.takeWhile_append_dropWhile]
  · -- What is left of the name begins with no dot.
    have hhead := List.head?_dropWhile_not (· == '.') (baseName path).toList
    rw [hname] at hhead
    cases hfront : front.reverse with
    | nil => simp [hfront] at hhead
    | cons c rest =>
      refine ⟨c, List.mem_append_right _ List.mem_cons_self, ?_⟩
      simpa [hfront] using hhead

/-- The last name of a path is that of a source: behind its last dot is a known extension,
in upper or lower case, and before it something other than dots. -/
def NamesSource (path : String) : Prop :=
  ∃ stem ext, (baseName path).toList = stem ++ '.' :: ext ∧ (∃ c ∈ stem, c ≠ '.') ∧ '.' ∉ ext ∧
    String.ofList ('.' :: ext.map Char.toLower) ∈ Language.extensions.map (·.1)

end Path

namespace Language

open YieldLint.Path

/-- A path has a language just when its last name is that of a source. -/
theorem isSome_ofPath?_iff {path : String} : (ofPath? path).isSome = true ↔ NamesSource path := by
  rw [ofPath?, isSome_lookup_iff]
  constructor
  · intro hknown
    have hne : extension path ≠ "" := by
      rintro hnone
      rw [hnone] at hknown
      exact absurd hknown (by decide)
    obtain ⟨stem, ext, hname, hstem, hext⟩ := exists_of_extension_ne hne
    rw [extension_eq hname hstem hext] at hknown
    exact ⟨stem, ext, hname, hstem, hext, hknown⟩
  · rintro ⟨stem, ext, hname, hstem, hext, hknown⟩
    rwa [extension_eq hname hstem hext]

theorem ofPath?_congr {path path' : String} (h : baseName path = baseName path') :
    ofPath? path = ofPath? path' := by
  rw [ofPath?, ofPath?, extension, extension, h]

theorem ofPath?_join (directory path : String) : ofPath? (join directory path) = ofPath? path :=
  ofPath?_congr (baseName_join directory path)

theorem ofPath?_joinWith {dirs : List String} {name : String}
    (h : ∀ n ∈ dirs ++ [name], '/' ∉ n.toList) :
    ofPath? (Text.joinWith "/" (dirs ++ [name])) = ofPath? name := by
  have hname : baseName name = name := by
    rw [baseName, components_of_not_mem (h name (by simp))]
    rfl
  exact ofPath?_congr ((baseName_joinWith h).trans hname.symm)

end Language

/-! ## Slashes and backslashes -/

namespace Path

theorem not_mem_normalize (path : String) : '\\' ∉ (normalize path).toList := by
  rw [normalize, String.toList_map, List.mem_map]
  rintro ⟨c, -, hc⟩
  by_cases hback : c = '\\'
  · rw [if_pos hback] at hc
    exact absurd hc (by decide)
  · rw [if_neg hback] at hc
    exact hback hc

theorem normalize_of_not_mem {path : String} (h : '\\' ∉ path.toList) : normalize path = path := by
  rw [← String.toList_inj, normalize, String.toList_map]
  refine (List.map_congr_left fun c hc => ?_).trans path.toList.map_id
  have hback : c ≠ '\\' := fun he => h (he ▸ hc)
  rw [if_neg hback, id]

theorem not_mem_of_mem_components {name path : String} {c : Char} (hpath : c ∉ path.toList)
    (hname : name ∈ components path) : c ∉ name.toList := by
  obtain ⟨piece, hpiece, rfl⟩ := List.mem_map.1 hname
  rw [String.toList_ofList]
  exact fun hc => hpath (mem_of_mem_splitSlash hpiece hc)

theorem mem_joinWith {names : List String} {c : Char}
    (h : c ∈ (Text.joinWith "/" names).toList) : c = '/' ∨ ∃ name ∈ names, c ∈ name.toList := by
  induction names with
  | nil => cases h
  | cons name rest ih =>
    cases rest with
    | nil => exact .inr ⟨name, List.mem_cons_self, h⟩
    | cons next rest =>
      rw [Text.joinWith, String.toList_append, String.toList_append, List.mem_append,
        List.mem_append] at h
      · rcases h with (h | h) | h
        · exact .inr ⟨name, List.mem_cons_self, h⟩
        · exact .inl (by simpa using h)
        · rcases ih h with h | ⟨n, hn, h⟩
          · exact .inl h
          · exact .inr ⟨n, List.mem_cons_of_mem _ hn, h⟩
      · exact nofun

end Path

end YieldLint
