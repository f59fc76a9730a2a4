/-!
# Pages

A page is a list of sections, each with a heading or without one, and its
markdown is that of its sections in order.
-/

namespace TagDoc

structure Section where
  level : Nat
  title : Option String
  body : String
deriving DecidableEq, Repr

namespace Section

def untitled : Section := ⟨0, none, ""⟩

def titled (level : Nat) (title : String) : Section := ⟨level, some title, ""⟩

def raw (part : Section) (text : String) : Section :=
  { part with body := part.body ++ text }

def line (part : Section) (text : String) : Section :=
  part.raw (text ++ "\n")

def lines (part : Section) (texts : List String) : Section :=
  texts.foldl line part

/-- Each line that is added stands at the end of the body. -/
theorem lines_eq (part : Section) (texts : List String) :
    part.lines texts =
      { part with
        body := part.body ++ String.join (texts.map (· ++ "\n")) } := by
  induction texts generalizing part with
  | nil => simp [lines]
  | cons text rest ih =>
      have step : part.lines (text :: rest) = (part.line text).lines rest := rfl
      rw [step, ih]
      simp [line, raw, String.append_assoc]

theorem title_lines (part : Section) (texts : List String) :
    (part.lines texts).title = part.title := by
  rw [lines_eq]

def heading (part : Section) : String :=
  match part.title with
  | some title =>
      String.ofList (List.replicate (max part.level 1) '#') ++ " " ++ title ++
        "\n\n"
  | none => ""

def markdown (part : Section) : String :=
  part.heading ++ part.body ++ "\n"

end Section

structure Page where
  sections : List Section
deriving DecidableEq, Repr

namespace Page

/-- The first section with a title. -/
def section? (page : Page) (title : String) : Option Section :=
  page.sections.find? fun part => part.title == some title

def titles (page : Page) : List String :=
  page.sections.filterMap Section.title

def markdown (page : Page) : String :=
  String.join (page.sections.map Section.markdown)

end Page

/-- A section with an item for each text, unless there is none. -/
def bulletSection (title : String) (items : List String) : Option Section :=
  if items.isEmpty then none
  else some ((Section.titled 2 title).lines (items.map ("* " ++ ·)))

end TagDoc
