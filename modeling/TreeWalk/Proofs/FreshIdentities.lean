import TreeWalk.Proofs.Equality
import TreeWalk.Proofs.Traffic

/-! What is made is new.

While a run goes on, the record of identities grows along with the world. When a request begins, all that has
happened before is known by the record of the world that it finds, so no value that has been there has the
identity that is handed out next. A function literal gets this identity, and the function is not found equal to
anything that was there before it, in this run or in any run that ended earlier. -/
namespace TreeWalk

open Value

/-- A request as it came up in the course of events. The last of these is what the request led to itself; all
that happened before is known by a record of the world that the request found. -/
inductive Request.MetAfter (record : List Value) (earlier : List Event) (request : Request) (start : World) :
    Ending Value → Prop where
  | intro (depth : Nat) (before : List Event) {later : List Value} (grown : record <+: later)
      (registered : start.Registered later) (known : ∀ event ∈ before, event.Known later)
      (whole : earlier ++ [.asked request start (request.perform depth start)] =
        before ++ request.trace depth start) :
      MetAfter record earlier request start (request.perform depth start)

variable {record later : List Value} {start found : World}

namespace Request

/-- More events may come first, as long as they are known. -/
theorem MetAfter.after {request : Request} (met : MetAfter later earlier request start ending)
    (grown : record <+: later) (known : ∀ event ∈ first, Event.Known later event) :
    MetAfter record (first ++ earlier) request start ending := by
  cases met with
  | intro depth before grownMore registered knownBefore whole =>
    refine .intro depth (first ++ before) (grown.trans grownMore) registered ?_ ?_
    · refine List.forall_mem_append.mpr ⟨fun event member value has => ?_, knownBefore⟩
      exact (known event member value has).later grownMore
    · rw [List.append_assoc, whole, List.append_assoc]

end Request

open Request (MetAfter)

/-- An event that comes up in one of two rows comes up in the first, or after all of it in the second. -/
theorem Event.prefix_append {event : Event} (listed : earlier ++ [event] <+: first ++ second) :
    earlier ++ [event] <+: first ∨ ∃ rest, earlier = first ++ rest ∧ rest ++ [event] <+: second := by
  rcases List.prefix_or_prefix_of_prefix listed (List.prefix_append first second) with within | ⟨rest, beyond⟩
  · exact .inl within
  · rcases List.eq_nil_or_concat rest with rfl | ⟨front, last, rfl⟩
    · exact .inl ⟨[], by simpa using beyond.symm⟩
    · rw [List.concat_eq_append, ← List.append_assoc] at beyond
      obtain ⟨rfl, same⟩ := List.append_inj' beyond rfl
      cases same
      rw [List.append_assoc] at listed
      exact .inr ⟨front, rfl, (List.prefix_append_right_inj first).mp listed⟩

/-- What is asked for in the course of a plan that goes by the record comes up after known events. -/
theorem Plan.metAfter {plan : Plan α} {inner : Request}
    (below : ∀ (request : Request) (start : World) (record : List Value) (earlier : List Event),
      start.Registered record → request.Known record →
      earlier ++ [.asked inner found ending] <+: request.trace depth start →
      MetAfter record earlier inner found ending)
    (registered : world.Registered record) (goesBy : plan.GoesBy post record)
    (listed : earlier ++ [.asked inner found ending] <+:
      plan.events (Request.perform depth) (Request.trace depth) world) :
    MetAfter record earlier inner found ending := by
  induction plan generalizing world record earlier with
  | done | stop => simp [events] at listed
  | act action next ih =>
    obtain ⟨known, later, grown, size, further⟩ := goesBy
    obtain ⟨registered', answered⟩ := Action.perform_registered registered known grown size
    have first := Event.known_of_acted registered known grown
    cases earlier with
    | nil => cases (List.cons_prefix_cons.mp listed).1
    | cons event earlier =>
      obtain ⟨rfl, inRest⟩ := List.cons_prefix_cons.mp listed
      exact (ih _ registered' (further _ answered) inRest).after grown (List.forall_mem_singleton.mpr first)
  | ask request next ih =>
    rw [events] at listed
    rcases Event.prefix_append listed with within | ⟨rest, rfl, inRest⟩
    · exact below request world record earlier registered goesBy.1 within
    · obtain ⟨later, grown, account⟩ := request.run_account depth registered goesBy.1
      cases met : request.perform depth world with
      | mk result after =>
        rw [met] at inRest account
        cases result with
        | error reason => simp at inRest
        | ok value =>
          have further := goesBy.2 later value grown (account.result value rfl)
          exact (ih value account.world further inRest).after grown account.events

/-- What is asked for in a run comes up after known events. -/
theorem Request.metAfter_of_trace (depth : Nat) (request : Request) {inner : Request} {world : World}
    (registered : world.Registered record) (known : request.Known record)
    (listed : earlier ++ [.asked inner found ending] <+: request.trace depth world) :
    MetAfter record earlier inner found ending := by
  induction depth generalizing request world record earlier with
  | zero =>
    have single : _ <+: [] ++ [_] := listed
    rcases List.prefix_concat_iff.mp single with whole | none
    · obtain ⟨rfl, same⟩ := List.append_inj' whole rfl
      cases same
      exact .intro 0 [] (List.prefix_refl record) registered (List.forall_mem_nil _) rfl
    · simp at none
  | succ depth ih =>
    rcases List.prefix_concat_iff.mp listed with whole | within
    · obtain ⟨rfl, same⟩ := List.append_inj' whole rfl
      cases same
      exact .intro (depth + 1) [] (List.prefix_refl record) registered (List.forall_mem_nil _) rfl
    · have goesBy := request.plan_goesBy known
      exact Plan.metAfter (fun request start record earlier => ih request) registered goesBy within

/-- All identities in a value have been handed out before. -/
def Value.MadeBefore (world : World) (value : Value) : Prop :=
  ∀ part : Value, part.Inside value → ∀ serial, part.serial? = some serial → serial < world.nextSerial

theorem Value.Known.madeBefore {value : Value} (known : Known record value)
    (handedOut : record.length ≤ world.nextSerial) : value.MadeBefore world := by
  intro part inside serial isSerial
  have present := known part inside serial isSerial
  exact Nat.lt_of_lt_of_le (List.getElem?_eq_some_iff.mp present).1 handedOut

/-- A function with the next identity is not found equal to what has been made before. -/
theorem Value.MadeBefore.not_equals {old : Value} (before : old.MadeBefore world) :
    ¬ Equals (.function world.nextSerial params body scope) old := by
  intro same
  have isSerial := serial?_of_outline (equals_iff.mp same)
  exact Nat.lt_irrefl _ (before old .here _ isSerial)

/-- The values that were there before a certain event of a run: in any run that had ended when this one began,
at an earlier event of this one, or stored where the event began, and all that is inside of these. What a host
has got when the run begins is among them, since a run without any depth ends at once. -/
inductive Before (world : World) (earlier : List Event) (start : World) : Value → Prop where
  | ended (reachable : Reachable past held) (offered : request.Offered held)
      (present : Present past held request depth value) (later : (request.perform depth past).2.Later world) :
      Before world earlier start value
  | met (member : event ∈ earlier) (has : event.Has value) : Before world earlier start value
  | stored (stores : start.Stores value) : Before world earlier start value
  | part (before : Before world earlier start whole) (inside : value.Inside whole) :
      Before world earlier start value

/-- A function literal in the course of events: unless there is no depth left, it gives a function with the next
identity, and all that happened earlier is known by a record of the world that it found. -/
theorem Request.MetAfter.literal
    (met : MetAfter record earlier (.eval (.function params body) scope) start ending) :
    ending = (.error .tooDeep, start) ∨
      ending = (.ok (.function start.nextSerial params body scope), start.takeSerial.2) ∧
      ∃ later, record <+: later ∧ start.Registered later ∧ ∀ event ∈ earlier, event.Known later := by
  cases met with
  | @intro depth before later grown registered known whole =>
    cases depth with
    | zero => exact .inl rfl
    | succ depth =>
      refine .inr ⟨rfl, later, grown, registered, ?_⟩
      -- The literal leads to nothing but taking the identity.
      have inner : before ++ trace (depth + 1) (.eval (.function params body) scope) start =
          before ++ [.acted .takeSerial start] ++ [.asked (.eval (.function params body) scope) start
            (perform (depth + 1) (.eval (.function params body) scope) start)] := by
        rw [List.append_assoc]
        rfl
      obtain rfl := List.append_cancel_right (whole.trans inner)
      have taken : Event.Known later (.acted .takeSerial start) :=
        Event.known_of_acted registered trivial (List.prefix_refl later)
      exact List.forall_mem_append.mpr ⟨known, List.forall_mem_singleton.mpr taken⟩

theorem Before.madeBefore (before : Before world earlier start value)
    (began : world.nextSerial ≤ start.nextSerial) (registered : start.Registered record)
    (known : ∀ event ∈ earlier, Event.Known record event) :
    value.MadeBefore start := by
  induction before with
  | ended reachable offered present later =>
    obtain ⟨past, endRegistered, pastKnown⟩ := reachable.known_to_the_end offered _
    refine (pastKnown _ present).madeBefore ?_
    rw [endRegistered.size]
    exact Nat.le_trans later.precedes.serials began
  | met member has => exact (known _ member _ has).madeBefore (Nat.le_of_eq registered.size)
  | stored stores => exact (registered.stored _ stores).madeBefore (Nat.le_of_eq registered.size)
  | part _ inside ih => exact fun part within => ih part (within.trans inside)

end TreeWalk
