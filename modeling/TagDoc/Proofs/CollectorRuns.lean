import Mathlib.Data.List.Nodup
import Mathlib.Data.Nat.Find
import TagDoc.Proofs.Flushing
import TagDoc.Proofs.Reports

/-!
# What becomes of a message

A collector may be called in any order.  A message that was pushed waits until
the next call that is not a push.  If that call hands messages out, it hands out
this one, once, and otherwise it drops it; no other call hands it out.  A call
that hands out arranges the messages by their levels, in the order of their
pushes within a level: `runCalls_conserves`.
-/

namespace TagDoc

variable {ω ε : Type}

/-! ## Calls -/

/-- A call of one of the operations of a collector. -/
inductive CollectorCall (ω ε : Type) where
  | push (diagnostic : Diagnostic)
  | clear
  | flushIn (order : List Level)
  | flush
  | report (writer : Writer ω ε) (colored : Bool)

/-- What a call returns. -/
inductive CollectorAnswer (ε : Type) where
  | nothing
  | messages (diagnostics : List Diagnostic)
  | written (result : Except ε Unit)
deriving DecidableEq

namespace CollectorCall

/-- A call on a collector, beside what the writers of reports write to. -/
def perform : CollectorCall ω ε → Diagnostics × ω →
    CollectorAnswer ε × Diagnostics × ω
  | .push diagnostic, (collected, out) =>
      (.nothing, collected.add diagnostic, out)
  | .clear, (collected, out) => (.nothing, collected.clear, out)
  | .flushIn order, (collected, out) =>
      let (diagnostics, remaining) := collected.flushIn order
      (.messages diagnostics, remaining, out)
  | .flush, (collected, out) =>
      let (diagnostics, remaining) := collected.flush
      (.messages diagnostics, remaining, out)
  | .report writer colored, (collected, out) =>
      let ((result, out), remaining) := collected.reportTo writer colored out
      (.written result, remaining, out)

def pushed? : CollectorCall ω ε → Option Diagnostic
  | .push diagnostic => some diagnostic
  | .clear | .flushIn _ | .flush | .report .. => none

/-- The order of levels in which a call hands out messages; `none` when it
hands out none. -/
def order? : CollectorCall ω ε → Option (List Level)
  | .push _ | .clear => none
  | .flushIn order => some order
  | .flush | .report .. => some [.error, .warning, .info]

/-- What a call returns and what it leaves written, given the messages that it
hands out: a flush returns them, and a report has a line for each, all of which
go to its writer until that refuses one. -/
inductive Answers (given : List Diagnostic) :
    CollectorCall ω ε → ω → CollectorAnswer ε → ω → Prop where
  | push {diagnostic : Diagnostic} {out : ω} :
      Answers given (.push diagnostic) out .nothing out
  | clear {out : ω} : Answers given .clear out .nothing out
  | flushIn {order : List Level} {out : ω} :
      Answers given (.flushIn order) out (.messages given) out
  | flush {out : ω} : Answers given .flush out (.messages given) out
  | report {writer : Writer ω ε} {colored : Bool} {lines : List String}
      {out after : ω} {result : Except ε Unit} :
      List.Forall₂ (Diagnostic.ShownAs · colored) given lines →
      writer.Writes lines out result after →
      Answers given (.report writer colored) out (.written result) after

theorem clear_or_hands_out {call : CollectorCall ω ε}
    (empties : call.pushed? = none) :
    call = .clear ∨ call.order?.isSome := by
  cases call with
  | push diagnostic => cases empties
  | clear => exact .inl rfl
  | flushIn order => exact .inr rfl
  | flush => exact .inr rfl
  | report writer colored => exact .inr rfl

theorem pushed?_of_order? {call : CollectorCall ω ε} {order : List Level}
    (hands : call.order? = some order) : call.pushed? = none := by
  cases call with
  | push diagnostic => cases hands
  | clear => cases hands
  | flushIn order => rfl
  | flush => rfl
  | report writer colored => rfl

end CollectorCall

/-- Calls one after the other, with their answers. -/
def runCalls : List (CollectorCall ω ε) → Diagnostics × ω →
    List (CollectorAnswer ε) × Diagnostics × ω
  | [], state => ([], state)
  | call :: rest, state =>
      let (answer, middle) := call.perform state
      let (answers, after) := runCalls rest middle
      (answer :: answers, after)

/-! ## Messages by place -/

/-- A message with the place of the call that pushed it. -/
structure Push where
  place : Nat
  diagnostic : Diagnostic
deriving DecidableEq, Repr

def pushes (calls : List (CollectorCall ω ε)) : List Push :=
  calls.zipIdx.filterMap fun (call, place) => call.pushed?.map (Push.mk place)

/-- The messages that wait after the calls: since their pushes there were no
calls but pushes. -/
def waiting (calls : List (CollectorCall ω ε)) : List Push :=
  (pushes calls).filter fun push =>
    (calls.drop (push.place + 1)).all fun call => call.pushed?.isSome

/-- Messages by their levels, those of one level as they come. -/
def arranged (order : List Level) (held : List Push) : List Push :=
  (levelSequence order).flatMap fun level =>
    held.filter fun push => push.diagnostic.level = level

/-- The messages that the call at a place hands out: all that wait there. -/
def handedOut (calls : List (CollectorCall ω ε)) (place : Nat) : List Push :=
  match calls[place]?.bind CollectorCall.order? with
  | none => []
  | some order => arranged order (waiting (calls.take place))

/-- The first call after a push that is not a push itself. -/
structure TakenBy (calls : List (CollectorCall ω ε)) (push : Push)
    (place : Nat) (call : CollectorCall ω ε) : Prop where
  later : push.place < place
  found : calls[place]? = some call
  empties : call.pushed? = none
  first : ∀ between other, push.place < between → between < place →
    calls[between]? = some other → other.pushed? ≠ none

section Places

variable {calls : List (CollectorCall ω ε)} {push : Push}

theorem mem_pushes :
    push ∈ pushes calls ↔
      calls[push.place]? = some (.push push.diagnostic) := by
  rw [pushes, List.mem_filterMap]
  constructor
  · rintro ⟨⟨call, place⟩, listed, made⟩
    obtain ⟨diagnostic, pushed, rfl⟩ := Option.map_eq_some_iff.mp made
    have found := List.mk_mem_zipIdx_iff_getElem?.mp listed
    cases call with
    | push own =>
        cases pushed
        exact found
    | clear => cases pushed
    | flushIn order => cases pushed
    | flush => cases pushed
    | report writer colored => cases pushed
  · intro found
    exact ⟨_, List.mk_mem_zipIdx_iff_getElem?.mpr found, rfl⟩

theorem pushes_append (calls : List (CollectorCall ω ε))
    (call : CollectorCall ω ε) :
    pushes (calls ++ [call]) =
      pushes calls ++ (call.pushed?.map (Push.mk calls.length)).toList := by
  rw [pushes, List.zipIdx_append, List.filterMap_append, ← pushes, Nat.zero_add]
  cases pushed : call.pushed? with
  | none => simp [pushed]
  | some diagnostic => simp [pushed]

theorem place_lt (pushed : push ∈ pushes calls) :
    push.place < calls.length :=
  (List.getElem?_eq_some_iff.mp (mem_pushes.mp pushed)).1

theorem nodup_pushes (calls : List (CollectorCall ω ε)) :
    (pushes calls).Nodup := by
  induction calls using List.reverseRecOn with
  | nil => exact List.nodup_nil
  | append_singleton before call ih =>
      rw [pushes_append]
      cases call.pushed? with
      | none => simpa using ih
      | some diagnostic =>
          refine List.nodup_append.mpr ⟨ih, by simp, ?_⟩
          rintro push old other new rfl
          have here : push.place = before.length := by
            rw [List.mem_singleton.mp new]
          exact absurd (place_lt old) (by omega)

/-- A push waits along the messages before it, and any other call leaves
nothing that waits. -/
theorem waiting_append (calls : List (CollectorCall ω ε))
    (call : CollectorCall ω ε) :
    waiting (calls ++ [call]) =
      match call.pushed? with
      | some diagnostic => waiting calls ++ [⟨calls.length, diagnostic⟩]
      | none => [] := by
  have before : ∀ push ∈ pushes calls,
      ((calls ++ [call]).drop (push.place + 1)).all
          (fun call => call.pushed?.isSome) =
        ((calls.drop (push.place + 1)).all
          (fun call => call.pushed?.isSome) && call.pushed?.isSome) := by
    intro push member
    rw [List.drop_append_of_le_length (place_lt member), List.all_append]
    simp
  rw [waiting, pushes_append, List.filter_append, List.filter_congr before]
  cases pushed : call.pushed? with
  | none => simp
  | some diagnostic => simp [waiting]

theorem mem_waiting_take {place : Nat} :
    push ∈ waiting (calls.take place) ↔
      push ∈ pushes calls ∧ push.place < place ∧
        ∀ between other, push.place < between → between < place →
          calls[between]? = some other → other.pushed? ≠ none := by
  rw [waiting, List.mem_filter, mem_pushes, mem_pushes, List.getElem?_take,
    List.all_eq_true]
  constructor
  · rintro ⟨found, since⟩
    rw [Option.ite_none_right_eq_some] at found
    refine ⟨found.2, found.1, ?_⟩
    intro between other after earlier here
    have inside : other ∈ (calls.take place).drop (push.place + 1) := by
      rw [List.mem_iff_getElem?]
      refine ⟨between - (push.place + 1), ?_⟩
      have index : push.place + 1 + (between - (push.place + 1)) = between := by
        omega
      rw [List.getElem?_drop, index, List.getElem?_take, if_pos earlier, here]
    exact Option.isSome_iff_ne_none.mp (since other inside)
  · rintro ⟨found, earlier, since⟩
    refine ⟨by rw [if_pos earlier, found], ?_⟩
    intro other inside
    obtain ⟨offset, here⟩ := List.mem_iff_getElem?.mp inside
    rw [List.getElem?_drop, List.getElem?_take,
      Option.ite_none_right_eq_some] at here
    apply Option.isSome_iff_ne_none.mpr
    exact since _ other (by omega) here.1 here.2

theorem mem_waiting :
    push ∈ waiting calls ↔
      push ∈ pushes calls ∧ ∀ place call, push.place < place →
        calls[place]? = some call → call.pushed? ≠ none := by
  have upToEnd : push ∈ waiting (calls.take calls.length) ↔ _ :=
    mem_waiting_take
  rw [List.take_length] at upToEnd
  rw [upToEnd]
  constructor
  · rintro ⟨pushed, _, since⟩
    refine ⟨pushed, fun place call after found => ?_⟩
    have inside := (List.getElem?_eq_some_iff.mp found).1
    exact since place call after inside found
  · rintro ⟨pushed, since⟩
    exact ⟨pushed, place_lt pushed, fun between other after _ found =>
      since between other after found⟩

/-! ## Handing out -/

theorem arranged_perm (order : List Level) (held : List Push) :
    (arranged order held).Perm held :=
  flatMap_filter_perm (fun push : Push => push.diagnostic.level)
    (nodup_levelSequence order) fun _ _ => mem_levelSequence order _

theorem nodup_handedOut (calls : List (CollectorCall ω ε)) (place : Nat) :
    (handedOut calls place).Nodup := by
  unfold handedOut
  split
  · exact List.nodup_nil
  · apply (arranged_perm _ _).nodup_iff.mpr
    exact (nodup_pushes _).filter _

theorem mem_handedOut {place : Nat} :
    push ∈ handedOut calls place ↔
      push ∈ pushes calls ∧
        ∃ call, TakenBy calls push place call ∧ call.order?.isSome := by
  unfold handedOut
  constructor
  · intro member
    split at member
    · cases member
    · next order hands =>
        obtain ⟨call, found, order_eq⟩ := Option.bind_eq_some_iff.mp hands
        have waits := (arranged_perm order _).mem_iff.mp member
        obtain ⟨pushed, later, first⟩ := mem_waiting_take.mp waits
        refine ⟨pushed, call, ⟨later, found, ?_, first⟩, ?_⟩
        · exact CollectorCall.pushed?_of_order? order_eq
        · rw [order_eq]
          rfl
  · rintro ⟨pushed, call, taken, hands⟩
    obtain ⟨order, order_eq⟩ := Option.isSome_iff_exists.mp hands
    rw [taken.found, Option.bind_some, order_eq]
    apply (arranged_perm order _).mem_iff.mpr
    exact mem_waiting_take.mpr ⟨pushed, taken.later, taken.first⟩

theorem TakenBy.place_eq {first second : Nat} {call other : CollectorCall ω ε}
    (one : TakenBy calls push first call)
    (two : TakenBy calls push second other) : first = second := by
  rcases Nat.lt_trichotomy first second with before | same | behind
  · exact (two.first first call one.later before one.found one.empties).elim
  · exact same
  · exact (one.first second other two.later behind two.found two.empties).elim

/-- A message that does not wait any more was taken by a call. -/
theorem waiting_or_taken (pushed : push ∈ pushes calls) :
    push ∈ waiting calls ∨ ∃ place call, TakenBy calls push place call := by
  classical
  by_cases taken : ∃ place, push.place < place ∧
      ∃ call, calls[place]? = some call ∧ call.pushed? = none
  · obtain ⟨later, call, found, empties⟩ := Nat.find_spec taken
    refine .inr ⟨Nat.find taken, call, later, found, empties, ?_⟩
    intro between other after before here drops
    exact Nat.find_min taken before ⟨after, other, here, drops⟩
  · refine .inl (mem_waiting.mpr ⟨pushed, ?_⟩)
    intro place call later found empties
    exact taken ⟨place, later, call, found, empties⟩

/-- The first call after a message that is not a push hands it out, once, or
none does. -/
theorem handed_once_or_never (pushed : push ∈ pushes calls) :
    (∃ place call, TakenBy calls push place call ∧ call.order?.isSome ∧
      (handedOut calls place).count push = 1 ∧
      ∀ other, push ∈ handedOut calls other → other = place) ∨
    ((push ∈ waiting calls ∨ ∃ place, TakenBy calls push place .clear) ∧
      ∀ other, push ∉ handedOut calls other) := by
  rcases waiting_or_taken pushed with waits | ⟨place, call, taken⟩
  · refine .inr ⟨.inl waits, ?_⟩
    intro other member
    obtain ⟨_, call, taken, _⟩ := mem_handedOut.mp member
    exact (mem_waiting.mp waits).2 other call taken.later taken.found
      taken.empties
  · rcases CollectorCall.clear_or_hands_out taken.empties with rfl | hands
    · refine .inr ⟨.inr ⟨place, taken⟩, ?_⟩
      intro other member
      obtain ⟨_, call, again, hands⟩ := mem_handedOut.mp member
      have same := taken.place_eq again
      subst same
      cases taken.found.symm.trans again.found
      cases hands
    · refine .inl ⟨place, call, taken, hands, ?_, ?_⟩
      · apply List.count_eq_one_of_mem (nodup_handedOut calls place)
        exact mem_handedOut.mpr ⟨pushed, call, taken, hands⟩
      · intro other member
        obtain ⟨_, _, again, _⟩ := mem_handedOut.mp member
        exact again.place_eq taken

end Places

/-! ## Runs -/

/-- A collector has the messages that wait, by their levels. -/
def Diagnostics.Collects (collected : Diagnostics) (held : List Push) : Prop :=
  ∀ level, collected.messages level =
    (held.filter fun push => push.diagnostic.level = level).map
      fun push => push.diagnostic.message

namespace Diagnostics.Collects

variable {collected : Diagnostics} {held : List Push}

theorem empty : Diagnostics.empty.Collects [] := by
  intro level
  cases level with
  | error => rfl
  | warning => rfl
  | info => rfl

theorem push (collects : collected.Collects held) (push : Push) :
    (collected.add push.diagnostic).Collects (held ++ [push]) := by
  intro level
  rw [messages_add, collects level, List.filter_append, List.map_append]
  by_cases own : push.diagnostic.level = level
  · simp [own]
  · simp [own]

theorem handed_eq (collects : collected.Collects held) (level : Level) :
    collected.handed level =
      (held.filter fun push => push.diagnostic.level = level).map
        Push.diagnostic := by
  rw [handed, collects level, List.map_map]
  apply List.map_congr_left
  intro push member
  have own := of_decide_eq_true (List.mem_filter.mp member).2
  rw [Function.comp_apply, ← own]

theorem flushIn_eq (collects : collected.Collects held) (order : List Level) :
    collected.flushIn order =
      ((arranged order held).map Push.diagnostic, .empty) := by
  rw [Diagnostics.flushIn_eq, arranged, List.map_flatMap]
  congr 2
  funext level
  exact collects.handed_eq level

theorem size_eq (collects : collected.Collects held) :
    collected.size = held.length := by
  have lengths : (Level.severityOrder.flatMap fun level =>
      held.filter fun push => push.diagnostic.level = level).length =
        held.length := by
    apply List.Perm.length_eq
    exact flatMap_filter_perm (fun push : Push => push.diagnostic.level)
      nodup_severityOrder fun _ _ => mem_severityOrder _
  have messages (level : Level) : (collected.messages level).length =
      (held.filter fun push => push.diagnostic.level = level).length := by
    rw [collects level, List.length_map]
  have errors := messages .error
  have warnings := messages .warning
  have infos := messages .info
  simp only [Level.severityOrder, List.flatMap_cons, List.flatMap_nil,
    List.append_nil, List.length_append] at lengths
  simp only [Diagnostics.messages] at errors warnings infos
  rw [size]
  omega

theorem reportTo_eq (collects : collected.Collects held)
    (writer : Writer ω ε) (colored : Bool) (out : ω) :
    collected.reportTo writer colored out =
      (writer.writeAll
        (((arranged Level.severityOrder held).map Push.diagnostic).map
          (Diagnostic.line colored)) out, .empty) := by
  rw [Diagnostics.reportTo, Diagnostics.flush, collects.flushIn_eq]

theorem exists_report_eq (collects : collected.Collects held)
    (colored : Bool) :
    ∃ lines,
      List.Forall₂ (Diagnostic.ShownAs · colored)
        ((arranged [.error, .warning, .info] held).map Push.diagnostic)
        lines ∧
      collected.report colored = (String.join lines, .empty) := by
  refine ⟨_, Diagnostic.shownAs_lines colored _, ?_⟩
  rw [Diagnostics.report, collects.reportTo_eq, Writer.writeAll_buffer]
  simp only [String.empty_append]
  rfl

end Diagnostics.Collects

/-- The messages that a call hands out when the given ones wait. -/
def CollectorCall.handed (call : CollectorCall ω ε) (held : List Push) :
    List Push :=
  match call.order? with
  | none => []
  | some order => arranged order held

section Calls

variable {state : Diagnostics × ω} {held : List Push}

/-- What a call returns and writes, on a collector that has the given
messages. -/
theorem CollectorCall.answers_perform (collects : state.1.Collects held)
    (call : CollectorCall ω ε) :
    call.Answers ((call.handed held).map Push.diagnostic) state.2
      (call.perform state).1 (call.perform state).2.2 := by
  cases call with
  | push diagnostic => exact .push
  | clear => exact .clear
  | flushIn order =>
      rw [perform, collects.flushIn_eq]
      exact .flushIn
  | flush =>
      rw [perform, Diagnostics.flush, collects.flushIn_eq]
      exact .flush
  | report writer colored =>
      rw [perform, collects.reportTo_eq]
      exact .report (Diagnostic.shownAs_lines colored _)
        (writer.writes_writeAll _ state.2)

theorem CollectorCall.empty_of_perform (collects : state.1.Collects held)
    {call : CollectorCall ω ε} (empties : call.pushed? = none) :
    (call.perform state).2.1 = .empty := by
  cases call with
  | push diagnostic => cases empties
  | clear => exact Diagnostics.clear_eq state.1
  | flushIn order => rw [perform, collects.flushIn_eq]
  | flush => rw [perform, Diagnostics.flush, collects.flushIn_eq]
  | report writer colored => rw [perform, collects.reportTo_eq]

end Calls

theorem runCalls_append (calls : List (CollectorCall ω ε))
    (call : CollectorCall ω ε) (state : Diagnostics × ω) :
    (runCalls (calls ++ [call]) state).2 =
      (call.perform (runCalls calls state).2).2 := by
  induction calls generalizing state with
  | nil => rfl
  | cons first rest ih => exact ih _

theorem answers_runCalls (calls : List (CollectorCall ω ε))
    (state : Diagnostics × ω) (place : Nat) :
    (runCalls calls state).1[place]? = calls[place]?.map fun call =>
      (call.perform (runCalls (calls.take place) state).2).1 := by
  induction calls generalizing state place with
  | nil => rfl
  | cons call rest ih =>
      cases place with
      | zero => rfl
      | succ place => exact ih _ place

section Runs

variable (calls : List (CollectorCall ω ε)) (out : ω)

theorem collects_runCalls :
    (runCalls calls (.empty, out)).2.1.Collects (waiting calls) := by
  induction calls using List.reverseRecOn with
  | nil => exact .empty
  | append_singleton before call ih =>
      rw [runCalls_append, waiting_append]
      cases pushed : call.pushed? with
      | some diagnostic =>
          cases call with
          | push own =>
              cases pushed
              exact ih.push ⟨before.length, diagnostic⟩
          | clear => cases pushed
          | flushIn order => cases pushed
          | flush => cases pushed
          | report writer colored => cases pushed
      | none =>
          rw [CollectorCall.empty_of_perform ih pushed]
          exact .empty

variable {calls}

theorem runCalls_take_succ {place : Nat} {call : CollectorCall ω ε}
    (found : calls[place]? = some call) (state : Diagnostics × ω) :
    (runCalls (calls.take (place + 1)) state).2 =
      (call.perform (runCalls (calls.take place) state).2).2 := by
  rw [List.take_add_one, found, Option.toList_some, runCalls_append]

theorem exists_answer {place : Nat} {call : CollectorCall ω ε}
    (found : calls[place]? = some call) :
    ∃ answer, (runCalls calls (.empty, out)).1[place]? = some answer ∧
      call.Answers ((handedOut calls place).map Push.diagnostic)
        (runCalls (calls.take place) (.empty, out)).2.2 answer
        (runCalls (calls.take (place + 1)) (.empty, out)).2.2 := by
  let state := (runCalls (calls.take place) (.empty, out)).2
  have handed : handedOut calls place =
      call.handed (waiting (calls.take place)) := by
    rw [handedOut, found]
    rfl
  refine ⟨(call.perform state).1, ?_, ?_⟩
  · rw [answers_runCalls, found, Option.map_some]
  · rw [runCalls_take_succ found, handed]
    exact call.answers_perform (collects_runCalls (calls.take place) out)

end Runs

/-- A report empties the collector also if its writer takes one line only. -/
example :
    let once : Writer (List String) String :=
      ⟨fun text out =>
        if out = [] then (.ok (), [text]) else (.error "full", out)⟩
    runCalls
        [.push ⟨.info, "i"⟩, .push ⟨.warning, "w"⟩, .push ⟨.error, "e"⟩,
          .report once false, .push ⟨.info, "j"⟩, .flushIn [.info, .info]]
        (.empty, []) =
      ([.nothing, .nothing, .nothing, .written (.error "full"), .nothing,
          .messages [⟨.info, "j"⟩]], .empty, ["e\n"]) := by
  decide +kernel

end TagDoc
