import TagDoc.PageKey
import TagDoc.Proofs.Stripping

/-!
# The key of a page and its spellings

Slashes around a directory or a name leave no trace in the key, and no key
begins with a slash.  The key of a page with a name has no slash at its end
either and is a key of itself.  A page whose name is nothing but slashes is
nameless: in a directory with a name its key ends with the slash that joins the
two, and that is the only such case: `pageKey_spellings`.
-/

namespace TagDoc

open Text (Only Bare stripChar)

/-! ## Keys -/

/-- A directory or a name that is more than slashes. -/
def HasName (text : String) : Prop :=
  ∃ character ∈ text.toList, character ≠ '/'

instance (text : String) : Decidable (HasName text) :=
  inferInstanceAs (Decidable (∃ character ∈ text.toList, character ≠ '/'))

/-- A number of slashes. -/
def slashes (count : Nat) : String :=
  String.ofList (List.replicate count '/')

theorem only_slashes (count : Nat) : Only '/' (slashes count).toList := by
  rw [slashes, String.toList_ofList]
  exact Text.only_replicate '/' count

theorem not_hasName_iff {text : String} :
    ¬ HasName text ↔ stripChar '/' text = "" := by
  rw [Text.stripChar_eq_empty_iff, HasName, Only]
  simp only [not_exists, not_and, not_not]

theorem HasName.stripped {text : String} (named : HasName text) :
    (stripChar '/' text).toList ≠ [] := by
  intro nothing
  exact not_hasName_iff.mpr (String.toList_eq_nil_iff.mp nothing) named

theorem pageKey_of_named {directory : String} (named : HasName directory)
    (name : String) :
    pageKey directory name =
      stripChar '/' directory ++ "/" ++ stripChar '/' name := by
  have something : (stripChar '/' directory).isEmpty = false := by
    rw [Bool.eq_false_iff, ne_eq, String.isEmpty_iff,
      ← String.toList_eq_nil_iff]
    exact named.stripped
  simp only [pageKey, something, Bool.false_eq_true, if_false]

theorem pageKey_of_nameless {directory : String}
    (nameless : ¬ HasName directory) (name : String) :
    pageKey directory name = stripChar '/' name := by
  have nothing : (stripChar '/' directory).isEmpty = true := by
    rw [not_hasName_iff.mp nameless]
    rfl
  simp only [pageKey, nothing, if_true]

theorem pageKey_padded {before after first last : String}
    (outer : Only '/' before.toList) (inner : Only '/' after.toList)
    (early : Only '/' first.toList) (late : Only '/' last.toList)
    (directory name : String) :
    pageKey (before ++ directory ++ after) (first ++ name ++ last) =
      pageKey directory name := by
  simp only [pageKey, Text.stripChar_padded outer inner,
    Text.stripChar_padded early late]

theorem pageKey_empty (key : String) : pageKey "" key = stripChar '/' key := by
  apply pageKey_of_nameless
  rintro ⟨character, member, _⟩
  cases member

theorem head?_pageKey (directory name : String) :
    (pageKey directory name).toList.head? ≠ some '/' := by
  by_cases named : HasName directory
  · rw [pageKey_of_named named, String.append_assoc, String.toList_append,
      List.head?_append_of_ne_nil _ named.stripped]
    exact (Text.bare_stripChar '/' directory).head
  · rw [pageKey_of_nameless named]
    exact (Text.bare_stripChar '/' name).head

/-- Only the slash that joins a directory and a name can end a key. -/
theorem getLast?_pageKey_iff (directory name : String) :
    (pageKey directory name).toList.getLast? = some '/' ↔
      HasName directory ∧ ¬ HasName name := by
  by_cases named : HasName directory
  · rw [pageKey_of_named named, and_iff_right named]
    by_cases proper : HasName name
    · have bare := (Text.bare_stripChar '/' name).last
      rw [String.toList_append,
        List.getLast?_append_of_ne_nil _ proper.stripped]
      exact ⟨fun ends => (bare ends).elim, fun absent => (absent proper).elim⟩
    · rw [not_hasName_iff.mp proper, String.append_empty, String.toList_append]
      simp [proper]
  · have bare := (Text.bare_stripChar '/' name).last
    rw [pageKey_of_nameless named]
    exact ⟨fun ends => (bare ends).elim, fun both => (named both.1).elim⟩

theorem pageKey_fixed_iff (directory name : String) :
    pageKey "" (pageKey directory name) = pageKey directory name ↔
      (HasName directory → HasName name) := by
  have ends := getLast?_pageKey_iff directory name
  rw [pageKey_empty, Text.stripChar_eq_self_iff]
  constructor
  · intro bare named
    by_contra nameless
    exact bare.last (ends.mpr ⟨named, nameless⟩)
  · intro proper
    refine ⟨head?_pageKey directory name, ?_⟩
    intro slash
    obtain ⟨named, nameless⟩ := ends.mp slash
    exact nameless (proper named)

/-- The keys of pages.  Slashes around the directory or the name do not change
a key, and it does not begin with one.  It does not end with one, and it is the
key of itself outside any directory, exactly if the name names something or the
directory does not.  Else the page is a nameless one inside its directory. -/
theorem pageKey_spellings (directory name : String) :
    let key := pageKey directory name
    (∀ a b c d,
      pageKey (slashes a ++ directory ++ slashes b)
        (slashes c ++ name ++ slashes d) = key) ∧
    key.toList.head? ≠ some '/' ∧
    (key.toList.getLast? ≠ some '/' ↔
      (HasName directory → HasName name)) ∧
    (pageKey "" key = key ↔ (HasName directory → HasName name)) ∧
    (HasName directory → ¬ HasName name →
      key = stripChar '/' directory ++ "/" ∧
        pageUrl none key = stripChar '/' directory ++ "/.md" ∧
        pageKey "" key = stripChar '/' directory) := by
  intro key
  refine ⟨?_, head?_pageKey directory name, ?_,
    pageKey_fixed_iff directory name, ?_⟩
  · intro a b c d
    exact pageKey_padded (only_slashes a) (only_slashes b) (only_slashes c)
      (only_slashes d) directory name
  · rw [ne_eq, getLast?_pageKey_iff, not_and, not_not]
  · intro named nameless
    have spelled : key = stripChar '/' directory ++ "/" := by
      rw [show key = pageKey directory name from rfl, pageKey_of_named named,
        not_hasName_iff.mp nameless, String.append_empty]
    refine ⟨spelled, ?_, ?_⟩
    · rw [spelled, pageUrl, String.append_assoc]
      rfl
    · -- The key is the bare directory between no slashes and one.
      rw [spelled, pageKey_empty]
      apply String.toList_injective
      apply Text.stripChar_of_around (Text.bare_stripChar '/' directory)
        (only_slashes 0) (only_slashes 1)
      simp [slashes]

/-- The page of the root path in a directory has no name of its own: its key
ends with a slash, and as a key of itself it loses it. -/
theorem not_pageKey_bare :
    ¬ ∀ directory name : String,
      (pageKey directory name).toList.head? ≠ some '/' ∧
      (pageKey directory name).toList.getLast? ≠ some '/' ∧
      pageKey "" (pageKey directory name) = pageKey directory name := by
  intro canonical
  obtain ⟨_, ends, _⟩ := canonical "api" "/"
  exact ends (by decide +kernel)

end TagDoc
