import Mathlib.Data.List.Forall2
import TagDoc.Diagnostics

/-!
# What a report writes

A report has a line for each message, in the order in which the messages are
handed out.  The line is the message, as it is or in the color of its level:
`shownAs_line`.  A writer takes the lines one after the other up to the first
one that it refuses: `writes_writeAll`.
-/

namespace TagDoc

/-! ## Lines -/

/-- The number of a level's color. -/
def Level.colorNumber : Level → String
  | .error => "31"
  | .warning => "33"
  | .info => "32"

def Level.colorSequence (level : Level) : List Char :=
  '\x1b' :: '[' :: level.colorNumber.toList ++ ['m']

def resetSequence : List Char := ['\x1b', '[', '0', 'm']

/-- A text and how it is shown in a color: behind each return to the terminal's
own color the color is selected again, and nothing else is changed. -/
inductive Recolored (color : List Char) : List Char → List Char → Prop where
  | nil : Recolored color [] []
  | back {rest shown : List Char} :
      Recolored color rest shown →
      Recolored color (resetSequence ++ rest)
        (resetSequence ++ color ++ shown)
  | keep {character : Char} {rest shown : List Char} :
      ¬ resetSequence <+: character :: rest →
      Recolored color rest shown →
      Recolored color (character :: rest) (character :: shown)

/-- A line shows a message, plain or in the color of its level. -/
inductive Diagnostic.ShownAs (diagnostic : Diagnostic) :
    Bool → String → Prop where
  | plain : ShownAs diagnostic false (diagnostic.message ++ "\n")
  | colored {shown : List Char} :
      Recolored diagnostic.level.colorSequence diagnostic.message.toList
        shown →
      ShownAs diagnostic true (String.ofList
        (diagnostic.level.colorSequence ++ shown ++ resetSequence ++ ['\n']))

theorem recolored_recolor (color text : List Char) :
    Recolored color text (recolor color text) := by
  induction text using recolor.induct with
  | case1 rest ih =>
      rw [recolor]
      exact .back ih
  | case2 character rest other ih =>
      rw [recolor]
      · apply Recolored.keep ?_ ih
        rintro ⟨after, same⟩
        obtain ⟨rfl, rfl⟩ := List.cons.inj same
        exact other after rfl rfl
      · exact other
  | case3 => exact .nil

theorem Level.toList_color (level : Level) :
    level.color.toList = level.colorSequence := by
  cases level with
  | error => rfl
  | warning => rfl
  | info => rfl

theorem Diagnostic.shownAs_line (colored : Bool) (diagnostic : Diagnostic) :
    diagnostic.ShownAs colored (diagnostic.line colored) := by
  cases colored with
  | false => exact .plain
  | true =>
      have recolored := recolored_recolor diagnostic.level.colorSequence
        diagnostic.message.toList
      have line : diagnostic.line true = String.ofList
          (diagnostic.level.colorSequence ++
            recolor diagnostic.level.colorSequence diagnostic.message.toList ++
              resetSequence ++ ['\n']) := by
        apply String.toList_injective
        simp only [Diagnostic.line, Diagnostic.colored, if_true,
          String.toList_append, String.toList_ofList, Level.toList_color]
        rfl
      rw [line]
      exact .colored recolored

theorem Diagnostic.shownAs_lines (colored : Bool)
    (diagnostics : List Diagnostic) :
    List.Forall₂ (ShownAs · colored) diagnostics
      (diagnostics.map (Diagnostic.line colored)) := by
  rw [List.forall₂_map_right_iff, List.forall₂_same]
  exact fun diagnostic _ => diagnostic.shownAs_line colored

/-! ## Writing -/

namespace Writer

variable {ω ε : Type} {writer : Writer ω ε}

/-- Texts are written one after the other until one is refused.  Those behind
it are not written. -/
inductive Writes (writer : Writer ω ε) :
    List String → ω → Except ε Unit → ω → Prop where
  | nil {out : ω} : Writes writer [] out (.ok ()) out
  | cons {text : String} {rest : List String} {out middle after : ω}
      {result : Except ε Unit} :
      writer.write text out = (.ok (), middle) →
      Writes writer rest middle result after →
      Writes writer (text :: rest) out result after
  | refused {text : String} {rest : List String} {out after : ω}
      {failure : ε} :
      writer.write text out = (.error failure, after) →
      Writes writer (text :: rest) out (.error failure) after

/-- A writer that refuses nothing. -/
def Accepts (writer : Writer ω ε) : Prop :=
  ∀ text out, (writer.write text out).1 = .ok ()

theorem writes_writeAll (writer : Writer ω ε) (texts : List String) (out : ω) :
    writer.Writes texts out (writer.writeAll texts out).1
      (writer.writeAll texts out).2 := by
  induction texts generalizing out with
  | nil => exact .nil
  | cons text rest ih =>
      rw [writeAll]
      cases answer : writer.write text out with
      | mk result middle =>
          cases result with
          | ok _ => exact .cons answer (ih middle)
          | error failure => exact .refused answer

theorem Writes.ok_of_accepts {texts : List String} {out after : ω}
    {result : Except ε Unit} (writes : writer.Writes texts out result after)
    (accepts : writer.Accepts) : result = .ok () := by
  induction writes with
  | nil => rfl
  | cons _ _ ih => exact ih
  | @refused text _ out _ _ answer =>
      have accepted := accepts text out
      rw [answer] at accepted
      cases accepted

theorem writeAll_buffer (texts : List String) (out : String) :
    buffer.writeAll texts out = (.ok (), out ++ String.join texts) := by
  induction texts generalizing out with
  | nil => simp [writeAll]
  | cons text rest ih =>
      have step : buffer.writeAll (text :: rest) out =
          buffer.writeAll rest (out ++ text) := rfl
      rw [step, ih, String.join_cons, String.append_assoc]

end Writer

end TagDoc
