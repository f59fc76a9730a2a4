import TagDoc.ParamPath
import TagDoc.Proofs.TextLines

/-!
# The texts that spell a parameter path

A name is a non-empty text without `.` and without the two characters `[]` next
to each other.  A text spells a path when it is the rendered path or the
rendered path with one more `[]`, and all names of the path are such names.
Reading finds exactly the path that a text spells, so a text spells at most
one.
-/

namespace TagDoc.ParamPath

/-- A text that may stand as a name in a path. -/
structure ValidName (name : String) : Prop where
  nonempty : name ≠ ""
  dotless : '.' ∉ name.toList
  markless : ¬ ['[', ']'] <:+: name.toList

/-- A text spells a path with valid names. -/
structure Spells (text : String) (path : ParamPath) : Prop where
  valid : ∀ name ∈ path.names, ValidName name
  spelled : text = path.render ∨ text = path.render ++ "[]"

/-! ## Characters without a mark -/

/-- No two neighbours are the array mark. -/
def Markless (text : List Char) : Prop :=
  text.IsChain (Text.Apart '[' ']')

theorem markless_take_one (text : List Char) : Markless (text.take 1) := by
  cases text with
  | nil => exact .nil
  | cons character rest => exact .singleton character

theorem ValidName.apart {name : String} (valid : ValidName name) :
    Markless name.toList :=
  Text.not_pair_infix_iff.mp valid.markless

/-- A name stays without a mark when a dot or an opening bracket follows. -/
theorem ValidName.apart_append {name : String} (valid : ValidName name)
    {next : Char} (other : next ≠ ']') :
    Markless (name.toList ++ [next]) := by
  refine valid.apart.append (.singleton next) ?_
  intro left _ right follows _
  rw [List.head?_cons, Option.mem_some] at follows
  exact follows ▸ other

theorem validName_of_reverse {read : List Char} (nonempty : read ≠ [])
    (dotless : '.' ∉ read) (apart : Markless read.reverse) :
    ValidName (String.ofList read.reverse) where
  nonempty := by simpa using nonempty
  dotless := by simpa using dotless
  markless := by simpa using Text.not_pair_infix_iff.mpr apart

/-! ## Reading what is spelled -/

theorem parseFrom_cons {character : Char} {rest : List Char} (name : List Char)
    (inside : character ≠ '.')
    (apart : ∀ next ∈ rest.head?, Text.Apart '[' ']' character next) :
    parseFrom name (character :: rest) =
      parseFrom (character :: name) rest := by
  rw [parseFrom]
  · exact inside
  · rintro rfl rfl
    exact apart ']' rfl rfl rfl
  · rintro after rfl rfl
    exact apart ']' rfl rfl rfl
  · rintro after rfl rfl
    exact apart ']' rfl rfl rfl

theorem parseFrom_append {name : List Char} (read rest : List Char)
    (dotless : '.' ∉ name) (apart : Markless (name ++ rest.take 1)) :
    parseFrom read (name ++ rest) = parseFrom (name.reverse ++ read) rest := by
  induction name generalizing read with
  | nil => rfl
  | cons character name ih =>
      have inside : character ≠ '.' := fun same =>
        dotless (same ▸ List.mem_cons_self)
      have next := List.isChain_cons.mp apart
      have follows : (name ++ rest).head? = (name ++ rest.take 1).head? := by
        cases name <;> cases rest <;> rfl
      rw [List.cons_append, parseFrom_cons read inside (follows ▸ next.1),
        ih _ (fun member => dotless (List.mem_cons_of_mem _ member)) next.2]
      simp

theorem Step.toList_render_field (name : String) :
    (Step.field name).render.toList = name.toList ++ ['.'] := by
  simp [Step.render]

theorem Step.toList_render_element (name : String) :
    (Step.element name).render.toList = name.toList ++ ['[', ']', '.'] := by
  simp [Step.render]

/-- A name is read as a whole when a dot or an opening bracket follows. -/
theorem parseFrom_name {name : String} (valid : ValidName name) {next : Char}
    (other : next ≠ ']') (rest : List Char) :
    parseFrom [] (name.toList ++ next :: rest) =
      parseFrom name.toList.reverse (next :: rest) := by
  have whole := parseFrom_append [] (next :: rest) valid.dotless
    (valid.apart_append other)
  rwa [List.append_nil] at whole

theorem ValidName.isEmpty_reverse {name : String} (valid : ValidName name) :
    name.toList.reverse.isEmpty = false := by
  simpa using valid.nonempty

theorem parseFrom_step {step : Step} (valid : ValidName step.name)
    (rest : List Char) :
    parseFrom [] (step.render.toList ++ rest) =
      (parseFrom [] rest).map fun path =>
        { path with parents := step :: path.parents } := by
  cases step with
  | field name =>
      have valid : ValidName name := valid
      rw [Step.toList_render_field, List.append_assoc, List.singleton_append,
        parseFrom_name valid (by decide), parseFrom, under?,
        valid.isEmpty_reverse]
      simp
  | element name =>
      have valid : ValidName name := valid
      rw [Step.toList_render_element, List.append_assoc, List.cons_append,
        List.cons_append, List.singleton_append,
        parseFrom_name valid (by decide), parseFrom, under?,
        valid.isEmpty_reverse]
      simp

theorem parseFrom_leaf {leaf : String} (valid : ValidName leaf) :
    parseFrom [] leaf.toList = some ⟨[], leaf⟩ := by
  have whole := parseFrom_append [] [] valid.dotless
    (by simpa using valid.apart)
  rw [List.append_nil, List.append_nil] at whole
  rw [whole, parseFrom, ofLeaf?, valid.isEmpty_reverse]
  simp

theorem parseFrom_leaf_mark {leaf : String} (valid : ValidName leaf) :
    parseFrom [] (leaf.toList ++ ['[', ']']) = some ⟨[], leaf⟩ := by
  rw [parseFrom_name valid (by decide), parseFrom, ofLeaf?,
    valid.isEmpty_reverse]
  simp

theorem toList_render (path : ParamPath) :
    path.render.toList =
      path.parents.flatMap (fun step => step.render.toList) ++
        path.leaf.toList := by
  simp [render, String.toList_join, List.flatMap_map]

theorem parseFrom_steps {parents : List Step} {rest : List Char}
    {leaf : String} (valid : ∀ step ∈ parents, ValidName step.name)
    (read : parseFrom [] rest = some ⟨[], leaf⟩) :
    parseFrom [] (parents.flatMap (fun step => step.render.toList) ++ rest) =
      some ⟨parents, leaf⟩ := by
  induction parents with
  | nil => exact read
  | cons step parents ih =>
      obtain ⟨first, others⟩ := List.forall_mem_cons.mp valid
      rw [List.flatMap_cons, List.append_assoc, parseFrom_step first,
        ih others]
      rfl

theorem Spells.parse?_eq {text : String} {path : ParamPath}
    (spells : Spells text path) : parse? text = some path := by
  obtain ⟨valid, spelled⟩ := spells
  have parents : ∀ step ∈ path.parents, ValidName step.name :=
    fun step member => valid _ (by
      simpa [names] using .inl ⟨step, member, rfl⟩)
  have leaf : ValidName path.leaf := valid _ (by simp [names])
  rcases spelled with rfl | rfl
  · rw [parse?, toList_render]
    exact parseFrom_steps parents (parseFrom_leaf leaf)
  · rw [parse?, String.toList_append, toList_render, List.append_assoc]
    exact parseFrom_steps parents (parseFrom_leaf_mark leaf)

/-! ## Spelling what is read -/

theorem names_cons (step : Step) (path : ParamPath) :
    names { path with parents := step :: path.parents } =
      step.name :: path.names := rfl

theorem render_cons (step : Step) (path : ParamPath) :
    render { path with parents := step :: path.parents } =
      step.render ++ path.render := by
  apply String.toList_injective
  simp [toList_render]

theorem Spells.cons {text : String} {path : ParamPath}
    (spells : Spells text path) {step : Step} (valid : ValidName step.name) :
    Spells (step.render ++ text)
      { path with parents := step :: path.parents } where
  valid := by
    rw [names_cons]
    exact List.forall_mem_cons.mpr ⟨valid, spells.valid⟩
  spelled := by
    rw [render_cons]
    rcases spells.spelled with rfl | rfl
    · exact .inl rfl
    · exact .inr (String.append_assoc ..).symm

theorem ValidName.spells {name : String} (valid : ValidName name) :
    Spells name ⟨[], name⟩ where
  valid := by simpa [names] using valid
  spelled := .inl (by simp [render])

theorem ValidName.spells_mark {name : String} (valid : ValidName name) :
    Spells (name ++ "[]") ⟨[], name⟩ where
  valid := by simpa [names] using valid
  spelled := .inr (by simp [render])

theorem ofLeaf?_eq_some {name : List Char} {path : ParamPath}
    (read : ofLeaf? name = some path) :
    name ≠ [] ∧ path = ⟨[], String.ofList name.reverse⟩ := by
  unfold ofLeaf? at read
  split at read
  · cases read
  · next named => exact ⟨by simpa using named, (Option.some.inj read).symm⟩

theorem under?_eq_some {step : String → Step} {name : List Char}
    {inner : Option ParamPath} {path : ParamPath}
    (read : under? step name inner = some path) :
    name ≠ [] ∧ ∃ rest, inner = some rest ∧
      path = { rest with
        parents := step (String.ofList name.reverse) :: rest.parents } := by
  unfold under? at read
  split at read
  · cases read
  · next named =>
      obtain ⟨rest, found, rfl⟩ := Option.map_eq_some_iff.mp read
      exact ⟨by simpa using named, rest, found, rfl⟩

/-- The characters read so far and those to come spell the path that is read,
provided that the former hold no dot and no mark, also not across the border
to the latter. -/
theorem spells_of_parseFrom {name text : List Char} {path : ParamPath}
    (dotless : '.' ∉ name)
    (apart : Markless (name.reverse ++ text.take 1))
    (read : parseFrom name text = some path) :
    Spells (String.ofList (name.reverse ++ text)) path := by
  have own := apart.left_of_append
  fun_induction parseFrom name text generalizing path with
  | case1 name =>
      obtain ⟨named, rfl⟩ := ofLeaf?_eq_some read
      rw [List.append_nil]
      exact (validName_of_reverse named dotless own).spells
  | case2 name rest ih =>
      obtain ⟨named, inner, found, rfl⟩ := under?_eq_some read
      have later := ih List.not_mem_nil (markless_take_one rest) found .nil
      have step : ValidName (Step.field (String.ofList name.reverse)).name :=
        validName_of_reverse named dotless own
      have spelled : String.ofList (name.reverse ++ '.' :: rest) =
          (Step.field (String.ofList name.reverse)).render ++
            String.ofList rest := by
        apply String.toList_injective
        simp [Step.render]
      rw [spelled]
      exact later.cons step
  | case3 name =>
      obtain ⟨named, rfl⟩ := ofLeaf?_eq_some read
      rw [String.ofList_append]
      exact (validName_of_reverse named dotless own).spells_mark
  | case4 name rest ih =>
      obtain ⟨named, inner, found, rfl⟩ := under?_eq_some read
      have later := ih List.not_mem_nil (markless_take_one rest) found .nil
      have step : ValidName (Step.element (String.ofList name.reverse)).name :=
        validName_of_reverse named dotless own
      have spelled : String.ofList (name.reverse ++ '[' :: ']' :: '.' :: rest) =
          (Step.element (String.ofList name.reverse)).render ++
            String.ofList rest := by
        apply String.toList_injective
        simp [Step.render]
      rw [spelled]
      exact later.cons step
  | case5 name rest => cases read
  | case6 name character rest inside _ _ broken ih =>
      -- The character joins the name, and with the next one it is no mark.
      have longer : Markless (character :: name).reverse := by
        simpa using apart
      have next : ∀ right ∈ (rest.take 1).head?,
          Text.Apart '[' ']' character right := by
        rintro right follows opening rfl
        cases rest with
        | nil => simp at follows
        | cons head tail =>
            obtain rfl : head = ']' := by simpa using follows
            exact broken tail opening rfl
      have border : Markless ((character :: name).reverse ++ rest.take 1) := by
        refine longer.append ?_ ?_
        · cases rest <;> simp
        · intro left last
          obtain rfl : character = left := by simpa using last
          exact next
      have dots : '.' ∉ character :: name := by
        simpa [eq_comm] using And.intro inside dotless
      have whole := ih dots border read longer
      rwa [List.reverse_cons, List.append_assoc, List.singleton_append]
        at whole

/-! ## The grammar -/

theorem spells_of_parse? {text : String} {path : ParamPath}
    (read : parse? text = some path) : Spells text path := by
  simpa using spells_of_parseFrom List.not_mem_nil
    (markless_take_one text.toList) read

/-- A text is read as a path exactly when it spells the path, so it is refused
exactly when it spells none, and no text spells two paths.  Two texts are read
as one path only if they differ in nothing but one `[]` at the end. -/
theorem parse?_grammar (text : String) :
    (∀ path, parse? text = some path ↔ Spells text path) ∧
      (parse? text = none ↔ ∀ path, ¬ Spells text path) ∧
      (∀ first second, Spells text first → Spells text second →
        first = second) ∧
      ∀ other, (parse? text).isSome → parse? other = parse? text →
        other = text ∨ other = text ++ "[]" ∨ text = other ++ "[]" := by
  have exact_path (path : ParamPath) :
      parse? text = some path ↔ Spells text path :=
    ⟨spells_of_parse?, Spells.parse?_eq⟩
  refine ⟨exact_path, ?_, ?_, ?_⟩
  · rw [Option.eq_none_iff_forall_ne_some]
    exact forall_congr' fun path => not_congr (exact_path path)
  · intro first second one two
    exact Option.some.inj (one.parse?_eq.symm.trans two.parse?_eq)
  · intro other readable same
    obtain ⟨path, read⟩ := Option.isSome_iff_exists.mp readable
    have here := (spells_of_parse? read).spelled
    have there := (spells_of_parse? (same.trans read)).spelled
    rcases here with rfl | rfl
    · rcases there with rfl | rfl
      · exact .inl rfl
      · exact .inr (.inl rfl)
    · rcases there with rfl | rfl
      · exact .inr (.inr rfl)
      · exact .inl rfl

/-- A bracket before a mark belongs to the name, and a mark at the end is not
part of the path. -/
theorem parse?_grammar_brackets :
    Spells "a[[].b" ⟨[.element "a["], "b"⟩ ∧
      Spells "a[[].b[]" ⟨[.element "a["], "b"⟩ ∧
      (∀ other, Spells "a[[].b" other → ⟨[.element "a["], "b"⟩ = other) ∧
      parse? "a[[].b[]" = parse? "a[[].b" ∧
      ("a[[].b[]" = "a[[].b" ∨ "a[[].b[]" = "a[[].b" ++ "[]" ∨
        "a[[].b" = "a[[].b[]" ++ "[]") := by
  have general := parse?_grammar "a[[].b"
  have spells : Spells "a[[].b" ⟨[.element "a["], "b"⟩ :=
    (general.1 _).mp (by decide)
  have marked : Spells "a[[].b[]" ⟨[.element "a["], "b"⟩ :=
    ((parse?_grammar "a[[].b[]").1 _).mp (by decide)
  have same : parse? "a[[].b[]" = parse? "a[[].b" := by decide
  exact ⟨spells, marked, fun other => general.2.2.1 _ other spells, same,
    general.2.2.2 _ (by decide) same⟩

end TagDoc.ParamPath
