import TreeWalk.CommandLine
import TreeWalk.Proofs.ErrorPlaces
import TreeWalk.Proofs.HostSafety

/-! Three ways to run a text.

A text can be entered at the prompt, it can be in a file that is loaded at the prompt, and this file can be
named on the command line. All three run the same program on the same input, and they show the same, apart
from what the command line does about errors. There are two exceptions. The prompt passes over an entry of
blanks, and some blanks are not white space of the language, so that the other two report them. And the
command line reads a program before the limit on the stack is raised, so that it has to give up where the
others still go on.

How deep a run may nest is the same for all three here. In the host they start from stacks of different
heights, so what is said of a run that is cut off holds only up to the few frames between them. -/
namespace TreeWalk

/-! What was logged before a run has no influence on it. -/

/-- A world in which more was logged before. -/
def World.noted (world : World) (earlier : List Note) : World := { world with notes := earlier ++ world.notes }

theorem World.noted_bind (world : World) (earlier : List Note) (scope : Nat) (name : String) (value : Value) :
    (world.noted earlier).bind scope name value = (world.bind scope name value).noted earlier := by
  simp only [World.bind, noted]
  split <;> rfl

theorem Action.perform_noted (action : Action) (world : World) (earlier : List Note) :
    action.perform (world.noted earlier) =
      ((action.perform world).1, (action.perform world).2.noted earlier) := by
  cases action with
  | takeSerial | addScope | print | readLine => rfl
  | bind scope name value => exact congrArg (Prod.mk ()) (world.noted_bind earlier scope name value)
  | find name scope =>
    have scopes : (world.noted earlier).scopes = world.scopes := rfl
    exact congrArg (·, world.noted earlier) (World.find?_of_scopes scopes name scope)
  | log note => simp [perform, World.log, World.noted]

theorem Plan.carryOut_noted {answer : Request → World → Ending Value}
    (below : ∀ request world earlier, answer request (world.noted earlier) =
      ((answer request world).1, (answer request world).2.noted earlier))
    (plan : Plan α) (world : World) (earlier : List Note) :
    plan.carryOut answer (world.noted earlier) =
      ((plan.carryOut answer world).1, (plan.carryOut answer world).2.noted earlier) := by
  induction plan generalizing world with
  | done value => rfl
  | stop reason => rfl
  | act action next ih =>
    rw [carryOut, carryOut, action.perform_noted]
    exact ih _ _
  | ask request next ih =>
    rw [carryOut, carryOut, below]
    obtain ⟨result, after⟩ := answer request world
    cases result with
    | ok value => exact ih value after
    | error reason => rfl

theorem Request.perform_noted (depth : Nat) (request : Request) (world : World) (earlier : List Note) :
    request.perform depth (world.noted earlier) =
      ((request.perform depth world).1, (request.perform depth world).2.noted earlier) := by
  induction depth generalizing request world earlier with
  | zero => rfl
  | succ depth ih => exact request.plan.carryOut_noted ih world earlier

theorem runTo_noted (depth : Nat) (source : String) (scope : Nat) (world : World) (earlier : List Note) :
    runTo depth source scope (world.noted earlier) =
      ((runTo depth source scope world).1, (runTo depth source scope world).2.noted earlier) := by
  unfold runTo
  cases parse source with
  | error error => simp [World.log, World.noted]
  | ok tree =>
    simp only [evaluateTo, Request.perform_noted]
    obtain ⟨result, after⟩ := (Request.eval (.ofTree tree) scope).perform depth world
    cases result with
    | ok value => rfl
    | error reason =>
      cases reason with
      | failed | malformed => rfl
      | tooDeep => simp [outcome, World.log, World.noted, World.takeSerial]

/-! How an entry is read. -/

namespace Text

/-- A class that has no member in a text, which can be looked up. -/
theorem forall_false_of_any {p : Char → Bool} {cs : List Char} (checked : cs.any p = false) :
    ∀ c ∈ cs, p c = false :=
  fun c member => Bool.eq_false_of_not_eq_true (List.any_eq_false.mp checked c member)

theorem uniformLines_eq_self (noReturn : '\r' ∉ cs) : uniformLines cs = cs := by
  fun_induction uniformLines cs with
  | case1 => rfl
  | case2 | case3 => simp at noReturn
  | case4 c rest _ _ ih =>
    rw [List.mem_cons, not_or] at noReturn
    rw [ih noReturn.2]

/-- Nothing is left of a text if all of it is blank. -/
theorem trim_eq_nil_iff : trim cs = [] ↔ ∀ c ∈ cs, isBlank c = true := by
  rw [trim, strip, List.reverse_eq_nil_iff, ← List.dropWhile_eq_nil_iff]
  constructor
  · intro blank
    have stop := List.head?_dropWhile_not isBlank cs
    cases rest : cs.dropWhile isBlank with
    | nil => rfl
    | cons c rest' =>
      rw [rest] at stop blank
      have isBlank := List.dropWhile_eq_nil_iff.mp blank c (by simp)
      rw [stop] at isBlank
      cases isBlank
  · intro isEmpty
    rw [isEmpty]
    rfl

/-- A text that begins and ends with something other than a blank has nothing to trim. -/
theorem trim_eq_self (begins : ∀ c ∈ cs.head?, isBlank c = false) (ends : ∀ c ∈ cs.getLast?, isBlank c = false) :
    trim cs = cs := by
  have keeps : ∀ cs : List Char, (∀ c ∈ cs.head?, isBlank c = false) → cs.dropWhile isBlank = cs := by
    intro cs begins
    cases cs with
    | nil => rfl
    | cons c cs => rw [List.dropWhile_cons, begins c rfl]; rfl
  rw [trim, strip, keeps cs begins, keeps cs.reverse (by rwa [List.head?_reverse]), List.reverse_reverse]

/-- A word, and after a space the rest. -/
theorem firstWord_append (word : ∀ c ∈ cs, isBlank c = false) (notBlank : isBlank c = false)
    (rest : List Char) : firstWord (cs ++ ' ' :: c :: rest) = (cs, c :: rest) := by
  have space : isBlank ' ' = true := by decide
  have outside : ∀ c ∈ cs, (!isBlank c) = true := fun c member => by rw [word c member]; rfl
  simp [firstWord, List.takeWhile_append_of_pos outside, List.dropWhile_append_of_pos outside, space, notBlank]

end Text

/-- A path that is taken as it is, at the prompt and on the command line. At the prompt a tilde in front stands
for somebody's folder. -/
structure Path.Plain (path : String) : Prop where
  notHome : path.toList.head? ≠ some '~'
  begins : ∃ c ∈ path.toList.head?, Text.isBlank c = false
  ends : ∃ c ∈ path.toList.getLast?, Text.isBlank c = false
  visible : ∀ c ∈ path.toList, Session.isInvisible c = false
  notOption : path ∉ ["-", "--ast", "--grammar"] ∧ "--grammar=".toList.isPrefixOf path.toList = false

namespace Session

variable {session : Session} {console : Console} {find : String → Found} {path source : String}

theorem visible_eq_self (shown : ∀ c ∈ source.toList, isInvisible c = false) : visible source = source := by
  rw [visible, List.filter_eq_self.mpr fun c member => by simp [shown c member], String.ofList_toList]

/-- Nothing but blanks is passed over. -/
theorem respond_blank (shown : ∀ c ∈ source.toList, isInvisible c = false)
    (blank : ∀ c ∈ source.toList, Text.isBlank c = true) :
    session.respond console find (.text source) = (.silent, session, false) := by
  simp [respond, visible_eq_self shown, Text.trim_eq_nil_iff.mpr blank]

/-- An entry that is neither blank nor a command is run. -/
theorem respond_source (shown : ∀ c ∈ source.toList, isInvisible c = false)
    (filled : Text.trim source.toList ≠ []) (notExit : Text.trim source.toList ≠ "exit".toList)
    (notCommand : (Text.trim source.toList).head? ≠ some '/') :
    session.respond console find (.text source) =
      ((session.runSource console source).1, (session.runSource console source).2, false) := by
  simpa [respond, visible_eq_self shown, filled, notCommand] using notExit

theorem respond_load (plain : Path.Plain path) :
    session.respond console find (.text ("/load " ++ path)) =
      ((session.load console find path).1, (session.load console find path).2, false) := by
  obtain ⟨first, begins, notBlank⟩ := plain.begins
  obtain ⟨rest, isPath⟩ := List.head?_eq_some_iff.mp begins
  have whole : ("/load " ++ path).toList = "/load".toList ++ ' ' :: first :: rest := by
    rw [String.toList_append, isPath]
    rfl
  have shown : visible ("/load " ++ path) = "/load " ++ path := by
    refine visible_eq_self fun c member => ?_
    rw [String.toList_append, List.mem_append] at member
    have command : ∀ c ∈ "/load ".toList, isInvisible c = false := Text.forall_false_of_any rfl
    exact member.elim (command c) (plain.visible c)
  have trimmed : Text.trim ("/load " ++ path).toList = ("/load " ++ path).toList := by
    refine Text.trim_eq_self ?_ ?_
    · rw [whole]
      rintro c ⟨⟩
      decide
    · rw [String.toList_append, List.getLast?_append_of_ne_nil _ (by simp [isPath])]
      obtain ⟨last, ends, notBlank⟩ := plain.ends
      rintro c isLast
      cases isLast.symm.trans ends
      exact notBlank
  have words : Text.firstWord ("/load " ++ path).toList = ("/load".toList, path.toList) := by
    rw [whole, isPath, Text.firstWord_append (Text.forall_false_of_any rfl) notBlank]
  have named : Command.ofName? (String.ofList "/load".toList) = some .load := by decide
  have notEmpty : path ≠ "" := by
    rintro rfl
    cases begins
  simp only [respond, shown, trimmed, words, named]
  rw [whole]
  simp [obey, notEmpty]

/-- Loading a file does what entering its text does, if the log is not shown. -/
theorem load_eq_runSource (held : find path = .file source) (noReturn : '\r' ∉ source.toList)
    (unlogged : session.world.notes = []) (hidden : console.showNotes = false) :
    session.load console find path = session.runSource console source := by
  have logged : session.world.log (.loading (Path.normal path)) =
      session.world.noted [.loading (Path.normal path)] := by
    simp [World.log, World.noted, unlogged]
  simp only [load, held, Found.read, Text.uniformLines_eq_self noReturn, String.ofList_toList, logged,
    runSource, runTo_noted, drain, World.drain, hidden]
  rfl

end Session

/-! Blanks as source text. -/

namespace Lexeme

/-- A blank that is not white space of the language begins nothing. -/
theorem piece?_of_strange_blank (blank : Text.isBlank c = true) (notGap : isGap c = false) (rest : List Char) :
    piece? (c :: rest) = none := by
  have outside : c.toNat ≤ 32 ∨ 133 ≤ c.toNat := by
    simp only [Text.isBlank, Bool.or_eq_true, Bool.and_eq_true, decide_eq_true_eq, beq_iff_eq] at blank
    omega
  have other : ∀ d : Char, 32 < d.toNat → d.toNat < 133 → c ≠ d := by
    rintro d low high rfl
    omega
  have notLetter : startsWord c = false := by
    have notAlpha : c.isAlpha = false := by
      change (decide (65 ≤ c.val ∧ c.val ≤ 90) || (97 ≤ c.val && c.val ≤ 122)) = false
      simp [UInt32.le_iff_toNat_le]
      omega
    simp [startsWord, notAlpha, other '_' (by decide) (by decide)]
  have notDigit : c.isDigit = false := by
    change (decide (48 ≤ c.val) && decide (c.val ≤ 57)) = false
    simp [UInt32.le_iff_toNat_le]
    omega
  have notSign : Terminal.ofChar? c = none := by
    unfold Terminal.ofChar?
    split <;> first | rfl | exact absurd rfl (other _ (by decide) (by decide))
  simp [piece?, notLetter, notGap, notDigit, notSign, other '"' (by decide) (by decide),
    other '/' (by decide) (by decide), other '=' (by decide) (by decide), other '!' (by decide) (by decide)]

variable {source : String}

theorem scan_of_gaps (gaps : ∀ c ∈ source.toList, isGap c = true) : scan source = ⟨[], none⟩ := by
  have skipped := scanFrom_gaps gaps .start []
  rwa [List.append_nil, scanFrom] at skipped

theorem scan_of_strange_blank (split : source.toList = blank ++ c :: rest) (gaps : ∀ g ∈ blank, isGap g = true)
    (isBlank : Text.isBlank c = true) (notGap : isGap c = false) :
    scan source = ⟨[], some ⟨c, Place.start.afterAll blank⟩⟩ := by
  rw [scan, split, scanFrom_gaps gaps, scanFrom_of_bad (piece?_of_strange_blank isBlank notGap rest)]

end Lexeme

/-- White space is a program that does nothing. -/
theorem parse_of_gaps (gaps : ∀ c ∈ source.toList, Lexeme.isGap c = true) :
    parse source = .ok (.node .program []) := by
  obtain ⟨derivation, derives, isProgram⟩ := derives_nil
  refine (derive_tree_iff automaton_belongs _ _).mpr ?_
  rw [Lexeme.scan_of_gaps gaps]
  exact ⟨rfl, derivation, derives, isProgram⟩

/-- A blank that is not white space of the language is reported. -/
theorem parse_of_strange_blank (split : source.toList = blank ++ c :: rest)
    (gaps : ∀ g ∈ blank, Lexeme.isGap g = true) (isBlank : Text.isBlank c = true)
    (notGap : Lexeme.isGap c = false) :
    parse source = .error (.ofBadChar ⟨c, Place.start.afterAll blank⟩) := by
  rw [parse, Lexeme.scan_of_strange_blank split gaps isBlank notGap]
  rfl

theorem runTo_of_gaps (gaps : ∀ c ∈ source.toList, Lexeme.isGap c = true) (alive : 0 < depth) (scope : Nat)
    (world : World) : runTo depth source scope world = (.ok .null, world) := by
  obtain ⟨depth, rfl⟩ := Nat.exists_eq_add_of_lt alive
  rw [runTo, parse_of_gaps gaps, Nat.zero_add]
  rfl

/-- Blanks that the prompt passes over, though not all of them are white space of the language. -/
def Session.PassedOver (source : String) : Prop :=
  (∀ c ∈ source.toList, Text.isBlank c = true) ∧ ∃ c ∈ source.toList, Lexeme.isGap c = false

/-- The first strange blank is reported. -/
theorem Session.PassedOver.runTo_eq (passed : PassedOver source) (depth scope : Nat) (world : World) :
    ∃ gaps c rest, source.toList = gaps ++ c :: rest ∧ (∀ g ∈ gaps, Lexeme.isGap g = true) ∧
      Lexeme.isGap c = false ∧
      (runTo depth source scope world).1 = .error (.unparsed (.ofBadChar ⟨c, Place.start.afterAll gaps⟩)) := by
  obtain ⟨blank, d, member, strange⟩ := passed
  have split := (List.takeWhile_append_dropWhile (p := Lexeme.isGap) (l := source.toList)).symm
  have stop := List.head?_dropWhile_not Lexeme.isGap source.toList
  cases rest : source.toList.dropWhile Lexeme.isGap with
  | nil =>
    have gap := List.dropWhile_eq_nil_iff.mp rest d member
    rw [strange] at gap
    cases gap
  | cons c rest' =>
    rw [rest] at split stop
    have isBlank : Text.isBlank c = true := blank c (by rw [split]; simp)
    have gaps : ∀ g ∈ source.toList.takeWhile Lexeme.isGap, Lexeme.isGap g = true :=
      fun g => List.mem_takeWhile_imp
    refine ⟨_, c, rest', split, gaps, stop, ?_⟩
    rw [runTo, parse_of_strange_blank split gaps isBlank stop]

/-! What a run shows. -/

/-- How a run that has printed something and ended with a result is reported: at the prompt, and on the
command line with its exit. -/
inductive Host.Reports (output : String) : Except Trouble Value → Reply → Exit × Reply → Prop where
  /-- A text that does not parse. -/
  | unparsed (error : ParseError) :
      Reports output (.error (.unparsed error)) ⟨output, "Error: " ++ error.text ++ "\n"⟩
        (.status 1, ⟨output, "Error: " ++ error.text ++ "\n"⟩)
  /-- An error is a result at the prompt, but not on the command line. -/
  | error (serial : Nat) (failure : Failure) :
      Reports output (.ok (.error serial failure))
        ⟨output ++ ((Value.error serial failure).render ++ "\n"), ""⟩
        (.status 1, ⟨output, (Value.error serial failure).render ++ "\n"⟩)
  | null : Reports output (.ok .null) ⟨output, ""⟩ (.status 0, ⟨output, ""⟩)
  | value (notError : ∀ serial failure, value ≠ .error serial failure) (notNull : value ≠ .null) :
      Reports output (.ok value) ⟨output ++ (value.render ++ "\n"), ""⟩
        (.status 0, ⟨output ++ (value.render ++ "\n"), ""⟩)

theorem Host.Reports.of_null (reports : Host.Reports output (.ok .null) reply exit) :
    reply = ⟨output, ""⟩ := by
  cases reports with
  | null => rfl
  | value _ notNull => exact absurd rfl notNull

theorem Reply.mk_append (out err out' err' : String) :
    (⟨out, err⟩ : Reply) ++ (⟨out', err'⟩ : Reply) = ⟨out ++ out', err ++ err'⟩ := rfl

/-- In a fresh session a text does not parse, or it gives a value. -/
theorem Session.runTo_fresh (source input : String) (tracebacks : Bool) (depth : Nat) :
    let fresh := Session.fresh input.toList tracebacks depth
    (∃ error, (runTo depth source fresh.scope fresh.world).1 = .error (.unparsed error)) ∨
      ∃ value, (runTo depth source fresh.scope fresh.world).1 = .ok value := by
  intro fresh
  have reachable : Reachable fresh.world [] := .root (.start input)
  unfold runTo
  cases parsed : parse source with
  | error error => exact .inl ⟨error, rfl⟩
  | ok tree =>
    have owned : (Request.eval (.ofTree tree) fresh.scope).Owned fresh.world :=
      owned_of_parsed parsed (Nat.lt_succ_self _)
    obtain ⟨value, after, ended, _⟩ :=
      (Request.perform_settled depth reachable.healthy.sound owned).evaluateTo tree.describe
    exact .inr ⟨value, by simp only [ended]; rfl⟩

namespace Host

/-- The same host, with someone at the prompt who makes one entry. -/
def entering (host : Host) (text : String) : Host := { host with entries := [.text text] }

variable {host : Host} {path source : String}

theorem converse_entering
    (responds : (Session.fresh host.input.toList host.settings.tracebacks host.depth).respond host.console
      host.find (.text text) = (reply, session, false)) :
    (host.entering text).converse = ([Session.banner, reply, .say ""], session) := by
  have sameDepth : (host.entering text).depth = host.depth := rfl
  rw [converse, sameDepth]
  simp only [entering, Session.converse, responds]
  rfl

/-- A file is run as a program of its own, on the input of the host, if there is room to read it. -/
theorem execute_path (plain : Path.Plain path) (held : host.find path = .file source)
    (noReturn : '\r' ∉ source.toList) :
    host.source (some path) = .ok (source, host.input) ∧
      host.execute [path] =
        if host.hasRoom source then host.runProgram source host.input else host.giveUp .noRoom := by
  obtain ⟨notOption, notGrammar⟩ := plain.notOption
  simp only [List.mem_cons, List.not_mem_nil, or_false, not_or] at notOption
  have read : Invocation.read [path] = .ok ⟨false, none, some path⟩ := by
    rw [Invocation.read, Invocation.readOn]
    · rw [notGrammar]
      rfl
    · exact notOption.2.1
    · exact fun isGrammar _ => notOption.2.2 isGrammar
    · exact fun _ _ isGrammar _ => notOption.2.2 isGrammar
  have found : host.source (some path) = .ok (source, host.input) := by
    simp [Host.source, notOption.1, held, Text.uniformLines_eq_self noReturn]
  refine ⟨found, ?_⟩
  cases room : host.hasRoom source <;> simp [execute, read, found, room]

/-- What the prompt and the command line make of the same run. -/
theorem reports_run (quiet : host.settings.tracebacks = false) (hidden : host.console.showNotes = false)
    (source : String) :
    let fresh := Session.fresh host.input.toList false host.depth
    let ran := runTo host.depth source fresh.scope fresh.world
    ∃ reply, fresh.runSource host.console source =
        (reply, { fresh with world := { ran.2 with output := "", notes := [] } }) ∧
      Reports ran.2.output ran.1 reply (host.runProgram source host.input) := by
  intro fresh ran
  have ended : (∃ error, ran.1 = .error (.unparsed error)) ∨ ∃ value, ran.1 = .ok value :=
    Session.runTo_fresh source host.input false host.depth
  have sameRun : runTo host.depth source
      (Session.fresh host.input.toList host.settings.tracebacks host.depth).scope
      (Session.fresh host.input.toList host.settings.tracebacks host.depth).world = ran := by rw [quiet]
  refine ⟨⟨ran.2.output, ""⟩ ++ Session.echo host.console false ran.1, ?_, ?_⟩
  · simp only [Session.runSource, Session.drain, World.drain, hidden]
    rfl
  have sameDepth : (Session.fresh host.input.toList host.settings.tracebacks host.depth).depth = host.depth := rfl
  simp only [runProgram, sameDepth, sameRun, World.drain, hidden]
  clear_value ran
  obtain ⟨result, after⟩ := ran
  rcases ended with ⟨error, rfl⟩ | ⟨value, rfl⟩
  · have shown : Reports after.output _ _ _ := .unparsed error
    simpa [Session.echo, report, quiet, Reply.warn, Reply.silent, Reply.mk_append, Trouble.text] using shown
  · cases value with
    | null =>
      have shown : Reports after.output _ _ _ := .null
      simpa [Session.echo, Reply.silent, Reply.mk_append] using shown
    | error serial failure =>
      have shown : Reports after.output _ _ _ := .error serial failure
      simpa [Session.echo, Reply.say, Reply.warn, Reply.mk_append] using shown
    | _ => exact .value (fun _ _ => by simp) (by simp)

end Host

/-- A text that is entered at a fresh prompt, that is loaded there from a file, and whose file is named on the
command line, is run once as the same program on the same input. Loading shows what entering shows and leaves
the same session. The command line shows the same and ends well, except that it reports an error on the error
output and does not end well then, nor if the text does not parse. Only where there is no room to read the text
before the limit on the stack is raised does the command line give up; and only where all of the text is blank,
but not all of it is white space of the language, is an entry passed over, while the others report its first
strange blank. -/
theorem front_ends_agree (host : Host) (path source : String) (plain : Path.Plain path)
    (held : host.find path = .file source) (quiet : host.settings.tracebacks = false)
    (hidden : host.console.showNotes = false) (alive : 0 < host.depth)
    (shown : ∀ c ∈ source.toList, Session.isInvisible c = false)
    (notExit : Text.trim source.toList ≠ "exit".toList)
    (notCommand : (Text.trim source.toList).head? ≠ some '/') :
    let fresh := Session.fresh host.input.toList false host.depth
    let ran := runTo host.depth source fresh.scope fresh.world
    let entered := (host.entering source).converse
    let loaded := (host.entering ("/load " ++ path)).converse
    host.source (some path) = .ok (source, host.input) ∧
    (∃ reply, loaded = ([Session.banner, reply, .say ""],
        { fresh with world := { ran.2 with output := "", notes := [] } }) ∧
      (host.hasRoom source = true → host.execute [path] = host.runProgram source host.input ∧
        Host.Reports ran.2.output ran.1 reply (host.execute [path])) ∧
      (host.hasRoom source = false → host.execute [path] = host.giveUp .noRoom)) ∧
    (¬ Session.PassedOver source → entered = loaded) ∧
    (Session.PassedOver source → entered = ([Session.banner, .silent, .say ""], fresh) ∧
      ∃ gaps c rest, source.toList = gaps ++ c :: rest ∧ (∀ g ∈ gaps, Lexeme.isGap g = true) ∧
        Lexeme.isGap c = false ∧
        ran.1 = .error (.unparsed (.ofBadChar ⟨c, Place.start.afterAll gaps⟩))) := by
  intro fresh ran entered loaded
  have noReturn : '\r' ∉ source.toList := fun member => by
    have isShown := shown _ member
    revert isShown
    decide
  have isFresh : fresh = Session.fresh host.input.toList host.settings.tracebacks host.depth := by rw [quiet]
  obtain ⟨found, executed⟩ := Host.execute_path plain held noReturn
  obtain ⟨reply, ranSource, reports⟩ := Host.reports_run quiet hidden source
  have isLoaded : loaded = ([Session.banner, reply, .say ""],
      { fresh with world := { ran.2 with output := "", notes := [] } }) := by
    refine Host.converse_entering ?_
    rw [Session.respond_load plain, ← isFresh, Session.load_eq_runSource held noReturn rfl hidden, ranSource]
  refine ⟨found, ⟨reply, isLoaded, fun room => ?_, fun noRoom => ?_⟩, fun notPassed => ?_,
    fun passed => ⟨?_, ?_⟩⟩
  · have isRun : host.execute [path] = host.runProgram source host.input := by rw [executed, if_pos room]
    exact ⟨isRun, isRun ▸ reports⟩
  · rw [executed, noRoom]
    rfl
  · by_cases blank : ∀ c ∈ source.toList, Text.isBlank c = true
    · have gaps : ∀ c ∈ source.toList, Lexeme.isGap c = true := by
        intro c member
        by_contra strange
        exact notPassed ⟨blank, c, member, Bool.eq_false_of_not_eq_true strange⟩
      have nothing : ran = (.ok .null, fresh.world) := runTo_of_gaps gaps alive fresh.scope fresh.world
      have silent : reply = .silent := by
        change Host.Reports ran.2.output ran.1 reply _ at reports
        rw [nothing] at reports
        exact reports.of_null
      rw [isLoaded, nothing, silent]
      refine Host.converse_entering ?_
      rw [Session.respond_blank shown blank, ← isFresh]
      rfl
    · have filled : Text.trim source.toList ≠ [] := fun isEmpty => blank (Text.trim_eq_nil_iff.mp isEmpty)
      rw [isLoaded]
      refine Host.converse_entering ?_
      rw [Session.respond_source shown filled notExit notCommand, ← isFresh, ranSource]
  · refine Host.converse_entering ?_
    rw [Session.respond_blank shown passed.1, isFresh]
  · exact passed.runTo_eq host.depth fresh.scope fresh.world

/-- A host with one file, and the input that a program may read. -/
def Host.withFile (path source input : String) : Host where
  console := ⟨"", "", false⟩
  settings := ⟨LogLevel.warning, none, false⟩
  find := Folder.find [(path, source)]
  input := input
  interactive := false
  entries := []

/-- A program of two lines, with a line of input for it. -/
theorem front_ends_agree_of_two_lines :
    let source := "print(readline())\n1 / 0"
    let host := Host.withFile "sum" source "one\ntwo"
    (host.entering source).converse = (host.entering "/load sum").converse ∧
      host.source (some "sum") = .ok (source, "one\ntwo") := by
  intro source host
  have plain : Path.Plain "sum" :=
    ⟨by decide, ⟨'s', rfl, rfl⟩, ⟨'m', rfl, rfl⟩, Text.forall_false_of_any rfl, by decide⟩
  have agree := front_ends_agree host "sum" source plain (by decide) rfl rfl (by decide)
    (Text.forall_false_of_any (by decide)) (by decide) (by decide)
  exact ⟨agree.2.2.1 fun passed => absurd (passed.1 'p' (by decide)) (by decide), agree.1⟩

/-- A vertical tab is passed over at the prompt, while it is reported if it is loaded from a file or run. -/
theorem front_ends_differ_on_vertical_tab :
    let host := Host.withFile "tab" "\x0b" ""
    let complaint := Reply.warn "Error: Unexpected character '\\x0b' (line 1, col 1)"
    ((∀ c ∈ "\x0b".toList, Session.isInvisible c = false) ∧ Text.trim "\x0b".toList = []) ∧
      (host.entering "\x0b").converse.1 = [Session.banner, .silent, .say ""] ∧
      (host.entering "/load tab").converse.1 = [Session.banner, complaint, .say ""] ∧
      host.execute ["tab"] = (.status 1, complaint) := by
  intro host complaint
  have plain : Path.Plain "tab" :=
    ⟨by decide, ⟨'t', rfl, rfl⟩, ⟨'b', rfl, rfl⟩, Text.forall_false_of_any rfl, by decide⟩
  have shown : ∀ c ∈ "\x0b".toList, Session.isInvisible c = false := Text.forall_false_of_any rfl
  have held : host.find "tab" = .file "\x0b" := by decide
  have noReturn : '\r' ∉ "\x0b".toList := by decide
  have gaps : ∀ c ∈ ([] : List Char), Lexeme.isGap c = true := List.forall_mem_nil _
  have parsed : parse "\x0b" = .error (.ofBadChar ⟨'\x0b', .start⟩) := parse_of_strange_blank rfl gaps rfl rfl
  have wording : (ParseError.ofBadChar ⟨'\x0b', .start⟩).text =
      "Unexpected character '\\x0b' (line 1, col 1)" := by decide +kernel
  obtain ⟨_, executed⟩ := Host.execute_path plain held noReturn
  refine ⟨⟨shown, by decide⟩, ?_, ?_, ?_⟩
  · rw [Host.converse_entering (Session.respond_blank shown (List.all_eq_true.mp rfl))]
  · have responds : (Session.fresh host.input.toList host.settings.tracebacks host.depth).respond host.console
        host.find (.text ("/load " ++ "tab")) = _ := Session.respond_load plain
    rw [Session.load_eq_runSource held noReturn rfl rfl] at responds
    have typed : "/load tab" = "/load " ++ "tab" := by decide
    rw [typed, Host.converse_entering responds]
    simp only [Session.runSource, runTo, parsed, Session.echo, Trouble.text, wording]
    rfl
  · have room : host.hasRoom "\x0b" = true := by rw [Host.hasRoom, parsed]
    rw [executed, if_pos room]
    simp only [Host.runProgram, runTo, parsed, Host.report, Trouble.text, wording]
    rfl

end TreeWalk
