import TreeWalk.Proofs.Likeness
import Mathlib.Data.Option.Defs

/-! Runs in parallel.

The same code, run in two worlds that correspond, takes the same actions and makes the same requests, up
to a matching of identities and scopes. A simulation says how the worlds correspond; its laws are about
single actions. That the two runs correspond all the way, and end alike, follows once for all of them.

The first of the two runs may get lost, in the sense that it is no longer compared with the second, for
instance once it has read some input or used up some identities. What is lost stays lost, and nothing is
said of the second run. -/
namespace TreeWalk

open Value (Alike ResultsAlike)

variable {m : Matching}

/-- The same name, which may be mentioned, bound to values that are alike. -/
def Matching.Binds (m : Matching) (binding binding' : String × Value) : Prop :=
  binding.1 = binding'.1 ∧ m.name binding.1 ∧ Alike m binding.2 binding'.2

namespace Plan

/-- Two plans that do the same, up to a matching, as long as they get answers that correspond. -/
inductive Parallel (m : Matching) (post : α → β → Prop) : Plan α → Plan β → Prop where
  | done (kept : post value value') : Parallel m post (.done value) (.done value')
  | failed {failure : Failure} (serials : m.serial serial serial') :
      Parallel m post (.stop (.failed serial failure)) (.stop (.failed serial' failure))
  | malformed (allowed : m.code (.fault fault)) :
      Parallel m post (.stop (.malformed fault)) (.stop (.malformed fault))
  | takeSerial {next : Nat → Plan α} {next' : Nat → Plan β}
      (rest : ∀ serial serial', m.serial serial serial' → Parallel m post (next serial) (next' serial')) :
      Parallel m post (.act .takeSerial next) (.act .takeSerial next')
  | addScope {next : Nat → Plan α} {next' : Nat → Plan β} (scopes : m.scope outer outer')
      (bound : List.Forall₂ m.Binds bindings bindings')
      (rest : ∀ scope scope', m.scope scope scope' → Parallel m post (next scope) (next' scope')) :
      Parallel m post (.act (.addScope ⟨some outer, bindings⟩) next)
        (.act (.addScope ⟨some outer', bindings'⟩) next')
  | bind {next : Unit → Plan α} {next' : Unit → Plan β} (scopes : m.scope scope scope')
      (allowed : m.name name) (alike : Alike m value value') (rest : Parallel m post (next ()) (next' ())) :
      Parallel m post (.act (.bind scope name value) next) (.act (.bind scope' name value') next')
  | find {next : Option Value → Plan α} {next' : Option Value → Plan β} (scopes : m.scope scope scope')
      (allowed : m.name name)
      (rest : ∀ found found', Option.Rel (Alike m) found found' → Parallel m post (next found) (next' found')) :
      Parallel m post (.act (.find name scope) next) (.act (.find name scope') next')
  | print {next : Unit → Plan α} {next' : Unit → Plan β} (rest : Parallel m post (next ()) (next' ())) :
      Parallel m post (.act (.print text) next) (.act (.print text) next')
  | readLine {next : String → Plan α} {next' : String → Plan β}
      (rest : ∀ line, Parallel m post (next line) (next' line)) :
      Parallel m post (.act .readLine next) (.act .readLine next')
  | log {next : Unit → Plan α} {next' : Unit → Plan β} (rest : Parallel m post (next ()) (next' ())) :
      Parallel m post (.act (.log note) next) (.act (.log note) next')
  | eval (allowed : m.code code) (scopes : m.scope scope scope')
      (rest : ∀ value value', Alike m value value' → Parallel m post (next value) (next' value')) :
      Parallel m post (.ask (.eval code scope) next) (.ask (.eval code scope') next')
  | apply (callees : Alike m callee callee') (passed : List.Forall₂ (Alike m) args args')
      (rest : ∀ value value', Alike m value value' → Parallel m post (next value) (next' value')) :
      Parallel m post (.ask (.apply callee args) next) (.ask (.apply callee' args') next')
  | compare (lefts : Alike m left left') (rights : Alike m right right')
      (rest : ∀ value value', Alike m value value' → Parallel m post (next value) (next' value')) :
      Parallel m post (.ask (.compare left right) next) (.ask (.compare left' right') next')

theorem Parallel.andThen {rest : α → Plan γ} {rest' : β → Plan δ} (first : Parallel m middle plan plan')
    (second : ∀ value value', middle value value' → Parallel m post (rest value) (rest' value')) :
    Parallel m post (plan >>= rest) (plan' >>= rest') := by
  induction first with
  | done kept => exact second _ _ kept
  | failed serials => exact .failed serials
  | malformed allowed => exact .malformed allowed
  | takeSerial _ ih => exact .takeSerial ih
  | addScope scopes bound _ ih => exact .addScope scopes bound ih
  | bind scopes allowed alike _ ih => exact .bind scopes allowed alike ih
  | find scopes allowed _ ih => exact .find scopes allowed ih
  | print _ ih => exact .print ih
  | readLine _ ih => exact .readLine ih
  | log _ ih => exact .log ih
  | eval allowed scopes _ ih => exact .eval allowed scopes ih
  | apply callees passed _ ih => exact .apply callees passed ih
  | compare lefts rights _ ih => exact .compare lefts rights ih

private theorem fail_parallel {failure : Failure} {post : α → β → Prop} :
    Parallel m post (fail failure) (fail failure) :=
  .takeSerial fun _ _ serials => .failed serials

private theorem run_parallel (allowed : m.code code) (scopes : m.scope scope scope') :
    Parallel m (Alike m) (run code scope) (run code scope') :=
  .eval allowed scopes fun _ _ alike => .done alike

private theorem call_parallel (callees : Alike m callee callee') (passed : List.Forall₂ (Alike m) args args') :
    Parallel m (Alike m) (call callee args) (call callee' args') :=
  .apply callees passed fun _ _ alike => .done alike

private theorem find_parallel (scopes : m.scope scope scope') (allowed : m.name name) :
    Parallel m (Option.Rel (Alike m)) (find name scope) (find name scope') :=
  .find scopes allowed fun _ _ found => .done found

private theorem settle_parallel (alike : Alike m value value') :
    Parallel m (Alike m) (settle value) (settle value') := by
  cases alike with
  | plain plain =>
    cases value with
    | error => cases plain
    | _ => exact .done (.plain plain)
  | array items => exact .done (.array items)
  | function serials scopes literal => exact .done (.function serials scopes literal)
  | signal serials inner => exact .done (.signal serials inner)
  | error serials => exact .failed serials

private theorem ofResult_parallel (results : ResultsAlike m result result') :
    Parallel m (Alike m) (ofResult result) (ofResult result') := by
  cases results with
  | ok alike => exact .done alike
  | error failure => exact fail_parallel

private theorem compareAll_parallel (items : List.Forall₂ (Alike m) left left')
    (others : List.Forall₂ (Alike m) right right') :
    Parallel m (Alike m) (compareAll (left.zip right)) (compareAll (left'.zip right')) := by
  induction items generalizing right right' with
  | nil => exact .done (.plain trivial)
  | cons first rest ih =>
    cases others with
    | nil => exact .done (.plain trivial)
    | cons second more =>
      refine .compare first second fun verdict verdict' alike => ?_
      cases alike with
      | @plain verdict =>
        change Parallel m (Alike m) (done verdict >>= _) (done verdict >>= _)
        simp only [done_bind]
        split
        · exact ih more
        · exact .done (.plain trivial)
      | array | function | signal | error => exact .done (.plain trivial)

private theorem combine_parallel (op : Binary) (lefts : Alike m left left') (rights : Alike m right right') :
    Parallel m (Alike m) (combine op left right) (combine op left' right') := by
  by_cases arrays : ∃ items others, op = .equal ∧ left = .array items ∧ right = .array others
  · obtain ⟨items, others, rfl, rfl, rfl⟩ := arrays
    obtain ⟨items', rfl, alikeItems⟩ := lefts.of_array
    obtain ⟨others', rfl, alikeOthers⟩ := rights.of_array
    rw [combine, combine, alikeItems.length_eq, alikeOthers.length_eq]
    split
    · exact compareAll_parallel alikeItems alikeOthers
    · exact .done (.plain trivial)
  · have notArrays : ∀ items others, op = .equal → left = .array items → right = .array others → False :=
      fun items others isEqual first second => arrays ⟨items, others, isEqual, first, second⟩
    rw [combine_eq_ofResult notArrays, combine_eq_ofResult]
    · exact ofResult_parallel (Value.binaryOp_alike op lefts rights)
    · rintro items others isEqual rfl rfl
      obtain ⟨items', rfl⟩ := lefts.of_array_right
      obtain ⟨others', rfl⟩ := rights.of_array_right
      exact notArrays items' others' isEqual rfl rfl

private theorem lookup_parallel (scopes : m.scope scope scope') (allowed : m.name name) :
    Parallel m (Alike m) (lookup scope name) (lookup scope' name) := by
  refine (find_parallel scopes allowed).andThen fun found found' same => ?_
  cases same with
  | some alike => exact .done alike
  | none =>
    cases Builtin.ofName? name with
    | some b => exact .done (.plain trivial)
    | none => exact fail_parallel

private theorem sequence_parallel (scopes : m.scope scope scope') (allowed : ∀ code ∈ codes, m.code code)
    (before : Alike m last last') :
    Parallel m (Alike m) (sequence scope last codes) (sequence scope' last' codes) := by
  induction codes generalizing last last' with
  | nil => exact .done before
  | cons code rest ih =>
    obtain ⟨allowedCode, allowedRest⟩ := List.forall_mem_cons.mp allowed
    refine (run_parallel allowedCode scopes).andThen fun value value' alike => ?_
    rw [alike.isSignal_eq]
    split
    · exact .done alike
    · exact ih allowedRest alike

private theorem collect_parallel (scopes : m.scope scope scope') (allowed : ∀ code ∈ codes, m.code code) :
    Parallel m (List.Forall₂ (Alike m)) (collect scope codes) (collect scope' codes) := by
  suffices ∀ values values', List.Forall₂ (Alike m) values values' →
      Parallel m (List.Forall₂ (Alike m)) (collectAfter scope values codes)
        (collectAfter scope' values' codes) from this [] [] .nil
  induction codes with
  | nil => exact fun values values' alike => .done (List.rel_reverse alike)
  | cons code rest ih =>
    intro values values' alike
    obtain ⟨allowedCode, allowedRest⟩ := List.forall_mem_cons.mp allowed
    refine (run_parallel allowedCode scopes).andThen fun value value' alikeValue => ?_
    exact ih allowedRest _ _ (.cons alikeValue alike)

private theorem requireUnbound_parallel (scopes : m.scope scope scope')
    (allowed : ∀ name ∈ names, m.name name) :
    Parallel m (fun _ _ => True) (requireUnbound scope names) (requireUnbound scope' names) := by
  induction names with
  | nil => exact .done trivial
  | cons name names ih =>
    obtain ⟨allowedName, allowedRest⟩ := List.forall_mem_cons.mp allowed
    refine (find_parallel scopes allowedName).andThen fun found found' same => ?_
    cases same with
    | some alike => exact fail_parallel
    | none => exact ih allowedRest

private theorem loopItems_parallel (scopes : m.scope scope scope')
    (allowed : ∀ name ∈ source :: element :: index.toList, m.name name) :
    Parallel m (List.Forall₂ (Alike m)) (loopItems scope source element index)
      (loopItems scope' source element index) := by
  obtain ⟨allowedSource, allowedNames⟩ := List.forall_mem_cons.mp allowed
  refine (find_parallel scopes allowedSource).andThen fun found found' same => ?_
  cases same with
  | none => exact fail_parallel
  | @some value _ alike =>
    cases alike with
    | array items =>
      dsimp only
      split
      · exact fail_parallel
      · exact (requireUnbound_parallel scopes allowedNames).andThen fun _ _ _ => .done items
    | plain plain =>
      cases value with
      | array => cases plain
      | _ => exact fail_parallel
    | function | signal | error => exact fail_parallel

private theorem assignAll_parallel (scopes : m.scope scope scope')
    (bound : List.Forall₂ m.Binds bindings bindings') :
    Parallel m (fun _ _ => True) (assignAll scope bindings) (assignAll scope' bindings') := by
  induction bound with
  | nil => exact .done trivial
  | @cons binding binding' _ _ binds _ ih =>
    obtain ⟨name, value⟩ := binding
    obtain ⟨name', value'⟩ := binding'
    obtain ⟨sameName, allowed, alike⟩ := binds
    cases sameName
    exact .bind scopes allowed alike ih

private theorem loopBindings_parallel (allowed : ∀ name ∈ element :: index.toList, m.name name)
    (alike : Alike m item item') :
    List.Forall₂ m.Binds (loopBindings element index count item) (loopBindings element index count item') := by
  obtain ⟨allowedElement, allowedIndex⟩ := List.forall_mem_cons.mp allowed
  have bound : m.Binds (element, item) (element, item') := ⟨rfl, allowedElement, alike⟩
  cases index with
  | none => exact .cons bound .nil
  | some name =>
    have counted : m.Binds (name, .int count) (name, .int count) :=
      ⟨rfl, allowedIndex name (by simp), .plain trivial⟩
    exact .cons counted (.cons bound .nil)

private theorem passes_parallel (scopes : m.scope scope scope')
    (names : ∀ name ∈ element :: index.toList, m.name name) (allowed : ∀ code ∈ body, m.code code)
    (alike : List.Forall₂ (Alike m) items items') :
    Parallel m (Alike m) (passes scope element index body count items)
      (passes scope' element index body count items') := by
  have null : Alike m .null .null := .plain trivial
  induction alike generalizing count with
  | nil => exact .done null
  | cons first _ ih =>
    refine (assignAll_parallel scopes (loopBindings_parallel names first)).andThen fun _ _ _ => ?_
    refine (sequence_parallel scopes allowed null).andThen fun value value' alikeValue => ?_
    rw [alikeValue.isSignal_eq]
    split
    · exact .done alikeValue
    · exact ih

private theorem split_parallel (callees : Alike m predicate predicate')
    (alike : List.Forall₂ (Alike m) items items') :
    Parallel m (fun parts parts' => List.Forall₂ (Alike m) parts.1 parts'.1 ∧
      List.Forall₂ (Alike m) parts.2 parts'.2) (split predicate items) (split predicate' items') := by
  suffices ∀ matched matched' others others', List.Forall₂ (Alike m) matched matched' →
      List.Forall₂ (Alike m) others others' →
      Parallel m (fun parts parts' => List.Forall₂ (Alike m) parts.1 parts'.1 ∧
        List.Forall₂ (Alike m) parts.2 parts'.2) (splitAfter predicate matched others items)
        (splitAfter predicate' matched' others' items') from this [] [] [] [] .nil .nil
  induction alike with
  | nil =>
    intro matched matched' others others' alikeMatched alikeOthers
    exact .done ⟨List.rel_reverse alikeMatched, List.rel_reverse alikeOthers⟩
  | cons first _ ih =>
    intro matched matched' others others' alikeMatched alikeOthers
    have asked := (call_parallel callees (.cons first .nil)).andThen fun _ _ => settle_parallel
    refine asked.andThen fun verdict verdict' alikeVerdict => ?_
    cases alikeVerdict with
    | plain plain =>
      cases verdict with
      | bool truth =>
        cases truth with
        | true => exact ih _ _ _ _ (.cons first alikeMatched) alikeOthers
        | false => exact ih _ _ _ _ alikeMatched (.cons first alikeOthers)
      | array | function | signal | error => cases plain
      | _ => exact fail_parallel
    | array | function | signal | error => exact fail_parallel

/-- A builtin that gets the wrong number of arguments fails, whatever they are. -/
private theorem runBuiltin_of_count (wrong : args.length ≠ b.arity) :
    runBuiltin b args = fail (.builtinCount b args.length) := by
  fun_cases runBuiltin b args <;> first | rfl | exact absurd rfl wrong

/-- The kinds of first argument that a builtin takes, if it does not take all. -/
private def firstKinds : Builtin → Option (List Kind)
  | .length => some [.string, .array]
  | .first | .last | .push | .reverse | .listConcat | .partition => some [.array]
  | .stringConcat | .parseInt => some [.string]
  | .print | .readline => none

/-- A builtin that gets a first argument of the wrong kind fails, and only the kind matters. -/
private theorem runBuiltin_of_kind (counted : (value :: rest).length = b.arity)
    (wants : firstKinds b = some kinds) (wrong : value.kind ∉ kinds) :
    runBuiltin b (value :: rest) = fail (.builtinArgument b kinds value.kind) := by
  cases b <;> cases wants
  case length | first | last | reverse | parseInt =>
    obtain rfl : rest = [] := List.length_eq_zero_iff.mp (Nat.succ.inj counted)
    cases value <;> first | rfl | simp [Value.kind] at wrong
  case push | listConcat | partition | stringConcat =>
    obtain ⟨other, rfl⟩ : ∃ other, rest = [other] := List.length_eq_one_iff.mp (Nat.succ.inj counted)
    cases value <;> first | rfl | simp [Value.kind] at wrong

/-- The two builtins that join texts or arrays look at the kind of the second argument as well. -/
private theorem listConcat_of_kind (wrong : other.kind ≠ .array) :
    runBuiltin .listConcat [.array items, other] =
      fail (.builtinArgument .listConcat [.array] other.kind) := by
  cases other with
  | array => exact absurd rfl wrong
  | _ => rfl

private theorem stringConcat_of_kind (wrong : other.kind ≠ .string) :
    runBuiltin .stringConcat [.str text, other] =
      fail (.builtinArgument .stringConcat [.string] other.kind) := by
  cases other with
  | str => exact absurd rfl wrong
  | _ => rfl

/-- A builtin that gets a first argument of the right kind does the same with what is alike. -/
private theorem runBuiltin_cons_parallel (one : Alike m value value')
    (others : List.Forall₂ (Alike m) rest rest') (counted : (value :: rest).length = b.arity)
    (accepted : ∀ kinds, firstKinds b = some kinds → value.kind ∈ kinds) :
    Parallel m (Alike m) (runBuiltin b (value :: rest)) (runBuiltin b (value' :: rest')) := by
  have takesArray : firstKinds b = some [.array] → ∃ items items', value = .array items ∧
      value' = .array items' ∧ List.Forall₂ (Alike m) items items' := by
    intro wants
    exact one.of_array_kind (List.mem_singleton.mp (accepted _ wants))
  have takesString : firstKinds b = some [.string] → ∃ text, value = .str text ∧ value' = .str text := by
    intro wants
    exact one.of_string_kind (List.mem_singleton.mp (accepted _ wants))
  cases others with
  | nil =>
    cases b with
    | length =>
      rcases List.mem_cons.mp (accepted _ rfl) with isString | isArray
      · obtain ⟨text, rfl, rfl⟩ := one.of_string_kind isString
        exact .done (.plain trivial)
      · obtain ⟨items, items', rfl, rfl, alike⟩ := one.of_array_kind (List.mem_singleton.mp isArray)
        simp only [runBuiltin, alike.length_eq]
        exact .done (.plain trivial)
    | first =>
      obtain ⟨items, items', rfl, rfl, alike⟩ := takesArray rfl
      cases alike with
      | nil => exact fail_parallel
      | cons first _ => exact .done first
    | last =>
      obtain ⟨items, items', rfl, rfl, alike⟩ := takesArray rfl
      have reversed := List.rel_reverse alike
      simp only [runBuiltin, ← List.head?_reverse]
      generalize items.reverse = backwards at reversed
      generalize items'.reverse = backwards' at reversed
      cases reversed with
      | nil => exact fail_parallel
      | cons last _ => exact .done last
    | reverse =>
      obtain ⟨items, items', rfl, rfl, alike⟩ := takesArray rfl
      exact .done (.array (List.rel_reverse alike))
    | parseInt =>
      obtain ⟨text, rfl, rfl⟩ := takesString rfl
      simp only [runBuiltin]
      split
      · exact .done (.plain trivial)
      · exact fail_parallel
    | print =>
      simp only [runBuiltin, one.render_eq]
      exact .print (.done (.plain trivial))
    | push | listConcat | partition | stringConcat | readline => cases counted
  | @cons other other' _ _ two more =>
    cases more with
    | cons => cases b <;> cases counted
    | nil =>
      cases b with
      | push =>
        obtain ⟨items, items', rfl, rfl, alike⟩ := takesArray rfl
        exact .done (.array (List.rel_append alike (.cons two .nil)))
      | listConcat =>
        obtain ⟨items, items', rfl, rfl, alike⟩ := takesArray rfl
        by_cases isArray : other.kind = .array
        · obtain ⟨others, others', rfl, rfl, alikeOthers⟩ := two.of_array_kind isArray
          exact .done (.array (List.rel_append alike alikeOthers))
        · rw [listConcat_of_kind isArray, listConcat_of_kind (by rwa [← two.kind_eq]), two.kind_eq]
          exact fail_parallel
      | partition =>
        obtain ⟨items, items', rfl, rfl, alike⟩ := takesArray rfl
        simp only [runBuiltin, two.kind_eq]
        split
        · refine (split_parallel two alike).andThen fun parts parts' divided => ?_
          exact .done (.array (.cons (.array divided.1) (.cons (.array divided.2) .nil)))
        · exact fail_parallel
      | stringConcat =>
        obtain ⟨text, rfl, rfl⟩ := takesString rfl
        by_cases isString : other.kind = .string
        · obtain ⟨more, rfl, rfl⟩ := two.of_string_kind isString
          exact .done (.plain trivial)
        · rw [stringConcat_of_kind isString, stringConcat_of_kind (by rwa [← two.kind_eq]), two.kind_eq]
          exact fail_parallel
      | length | first | last | reverse | parseInt | print | readline => cases counted

/-- A builtin does not tell apart what is alike. -/
private theorem runBuiltin_parallel (b : Builtin) (alike : List.Forall₂ (Alike m) args args') :
    Parallel m (Alike m) (runBuiltin b args) (runBuiltin b args') := by
  by_cases counted : args.length = b.arity
  · cases alike with
    | nil =>
      cases b with
      | readline => exact .readLine fun _ => .done (.plain trivial)
      | _ => cases counted
    | @cons value value' rest rest' one others =>
      by_cases accepted : ∀ kinds, firstKinds b = some kinds → value.kind ∈ kinds
      · exact runBuiltin_cons_parallel one others counted accepted
      · push Not at accepted
        obtain ⟨kinds, wants, wrong⟩ := accepted
        have counted' : (value' :: rest').length = b.arity := by
          rw [← counted, (List.Forall₂.cons one others).length_eq]
        rw [runBuiltin_of_kind counted wants wrong,
          runBuiltin_of_kind counted' wants (by rwa [← one.kind_eq]), one.kind_eq]
        exact fail_parallel
  · rw [runBuiltin_of_count counted, runBuiltin_of_count (by rwa [← alike.length_eq]), alike.length_eq]
    exact fail_parallel

/-- The arguments of a function are bound to its parameters. -/
private theorem zip_parallel {params : List String} (allowed : ∀ name ∈ params, m.name name)
    (alike : List.Forall₂ (Alike m) args args') :
    List.Forall₂ m.Binds (params.zip args) (params.zip args') := by
  induction alike generalizing params with
  | nil =>
    rw [List.zip_nil_right]
    exact .nil
  | cons first _ ih =>
    cases params with
    | nil => exact .nil
    | cons name names =>
      obtain ⟨allowedName, allowedRest⟩ := List.forall_mem_cons.mp allowed
      exact .cons ⟨rfl, allowedName, first⟩ (ih allowedRest)

private theorem enter_parallel (literal : m.code (.function params body)) (scopes : m.scope outer outer')
    (alike : List.Forall₂ (Alike m) args args') :
    Parallel m (Alike m) (enter params body outer args) (enter params body outer' args') := by
  have null : Alike m .null .null := .plain trivial
  refine .addScope scopes (zip_parallel (fun _ => m.mentions literal) alike) fun scope scope' own => ?_
  exact (sequence_parallel own (fun _ => m.enclosed literal) null).andThen fun _ _ given =>
    .done given.unwrap

theorem applyStep_parallel (callees : Alike m callee callee') (passed : List.Forall₂ (Alike m) args args') :
    Parallel m (Alike m) (applyStep callee args) (applyStep callee' args') := by
  cases callees with
  | function _ scopes literal =>
    simp only [applyStep, passed.length_eq]
    split
    · exact enter_parallel literal scopes passed
    · exact .log fail_parallel
  | plain plain =>
    cases callee with
    | builtin b => exact runBuiltin_parallel b passed
    | array | function | signal | error => cases plain
    | _ => exact fail_parallel
  | array | signal | error => exact fail_parallel

/-- One node of code does the same in two scopes that correspond. -/
theorem step_parallel (allowed : m.code code) (scopes : m.scope scope scope') :
    Parallel m (Alike m) (step scope code) (step scope' code) := by
  have null : Alike m .null .null := .plain trivial
  have operand : ∀ part ∈ code.operands, Parallel m (Alike m) (run part scope) (run part scope') :=
    fun part member => run_parallel (m.operand allowed member) scopes
  have statements : ∀ part ∈ code.statements, m.code part := fun _ => m.statement allowed
  have names : ∀ name ∈ code.names, m.name name := fun _ => m.mentions allowed
  cases code with
  | program body =>
    exact (sequence_parallel scopes (fun _ => m.enclosed allowed) null).andThen fun _ _ alike =>
      .done alike.unwrap
  | block body => exact sequence_parallel scopes statements null
  | bind name value =>
    refine (operand value List.mem_cons_self).andThen fun _ _ alike => ?_
    exact .bind scopes (names name List.mem_cons_self) alike (.done null)
  | giveBack value =>
    refine (operand value List.mem_cons_self).andThen fun _ _ alike => ?_
    exact .takeSerial fun _ _ serials => .done (.signal serials alike)
  | loop source element index body =>
    refine (loopItems_parallel scopes names).andThen fun _ _ items => ?_
    exact passes_parallel scopes (List.forall_mem_cons.mp names).2 statements items
  | branch condition consequence alternative =>
    refine (operand condition List.mem_cons_self).andThen fun _ _ alike => ?_
    obtain ⟨consequenceAllowed, others⟩ := List.forall_mem_cons.mp statements
    rw [alike.truthy_eq]
    split
    · exact run_parallel consequenceAllowed scopes
    · exact run_parallel (others alternative List.mem_cons_self) scopes
  | function params body => exact .takeSerial fun _ _ serials => .done (.function serials scopes allowed)
  | call callee args =>
    refine (operand callee List.mem_cons_self).andThen fun _ _ callees => ?_
    have passed : ∀ arg ∈ args, m.code arg := fun _ member =>
      m.operand allowed (List.mem_cons_of_mem callee member)
    exact (collect_parallel scopes passed).andThen fun _ _ alike => call_parallel callees alike
  | subscript left index =>
    obtain ⟨first, others⟩ := List.forall_mem_cons.mp operand
    refine first.andThen fun _ _ whole => ?_
    exact (others index List.mem_cons_self).andThen fun _ _ place =>
      ofResult_parallel (Value.at?_alike whole place)
  | binary op left right =>
    obtain ⟨first, others⟩ := List.forall_mem_cons.mp operand
    refine first.andThen fun _ _ alikeLeft => ?_
    exact (others right List.mem_cons_self).andThen fun _ _ alikeRight =>
      combine_parallel op alikeLeft alikeRight
  | unary op part =>
    exact (operand part List.mem_cons_self).andThen fun _ _ alike =>
      ofResult_parallel (Value.unaryOp_alike op alike)
  | array items =>
    exact (collect_parallel scopes fun _ => m.operand allowed).andThen fun _ _ alike => .done (.array alike)
  | int | str | bool => exact .done (.plain trivial)
  | ident name => exact lookup_parallel scopes (names name List.mem_cons_self)
  | fail failure => exact fail_parallel
  | fault fault => exact .malformed allowed

end Plan

/-- Requests that correspond: for the same code in scopes that correspond, or on values that are alike. -/
inductive Request.Parallel (m : Matching) : Request → Request → Prop where
  | eval (allowed : m.code code) (scopes : m.scope scope scope') :
      Parallel m (.eval code scope) (.eval code scope')
  | apply (callees : Alike m callee callee') (passed : List.Forall₂ (Alike m) args args') :
      Parallel m (.apply callee args) (.apply callee' args')
  | compare (lefts : Alike m left left') (rights : Alike m right right') :
      Parallel m (.compare left right) (.compare left' right')

theorem Request.plan_parallel (requests : Request.Parallel m request request') :
    Plan.Parallel m (Alike m) request.plan request'.plan := by
  cases requests with
  | eval allowed scopes =>
    exact (Plan.step_parallel allowed scopes).andThen fun _ _ => Plan.settle_parallel
  | apply callees passed => exact Plan.applyStep_parallel callees passed
  | compare lefts rights => exact Plan.combine_parallel .equal lefts rights

/-- A correspondence of worlds that every pair of runs in parallel keeps, unless the first is lost. -/
structure Simulation extends Matching where
  world : World → World → Prop
  /-- The first run is no longer compared with the second. -/
  lost : World → Prop
  lost_kept : lost w → ∀ action : Action, lost (action.perform w).2
  takeSerial_kept : world w w' →
    lost w.takeSerial.2 ∨ serial w.nextSerial w'.nextSerial ∧ world w.takeSerial.2 w'.takeSerial.2
  addScope_kept : world w w' → scope outer outer' →
    List.Forall₂ toMatching.Binds bindings bindings' →
    scope w.scopes.size w'.scopes.size ∧
      world (w.addScope ⟨some outer, bindings⟩).2 (w'.addScope ⟨some outer', bindings'⟩).2
  bind_kept : world w w' → scope s s' → name n → Alike toMatching v v' →
    world (w.bind s n v) (w'.bind s' n v')
  find_kept : world w w' → scope s s' → name n →
    Option.Rel (Alike toMatching) (w.find? n s) (w'.find? n s')
  print_kept : world w w' → world (w.print text) (w'.print text)
  readLine_kept : world w w' →
    lost w.readLine.2 ∨ w.readLine.1 = w'.readLine.1 ∧ world w.readLine.2 w'.readLine.2
  log_kept : world w w' → world (w.log note) (w'.log note)

namespace Simulation

variable (sim : Simulation)

/-- Two runs that end alike. -/
inductive EndsAlike (post : α → β → Prop) : Ending α → Ending β → Prop where
  | ok (kept : post value value') (worlds : sim.world w w') : EndsAlike post (.ok value, w) (.ok value', w')
  | failed {failure : Failure} (serials : sim.serial serial serial') (worlds : sim.world w w') :
      EndsAlike post (.error (.failed serial failure), w) (.error (.failed serial' failure), w')
  | malformed (allowed : sim.code (.fault fault)) (worlds : sim.world w w') :
      EndsAlike post (.error (.malformed fault), w) (.error (.malformed fault), w')
  | tooDeep (worlds : sim.world w w') : EndsAlike post (.error .tooDeep, w) (.error .tooDeep, w')

/-- Two runs that end alike, unless the first is lost. -/
def Follows (post : α → β → Prop) (ending : Ending α) (ending' : Ending β) : Prop :=
  sim.lost ending.2 ∨ sim.EndsAlike post ending ending'

end Simulation

variable {sim : Simulation}

/-- What is lost stays lost while a plan is carried out. -/
theorem Plan.carryOut_lost {answer : Request → World → Ending Value}
    (below : ∀ request world, sim.lost world → sim.lost (answer request world).2) (plan : Plan α)
    (lost : sim.lost world) : sim.lost (plan.carryOut answer world).2 := by
  induction plan generalizing world with
  | done value => exact lost
  | stop reason => exact lost
  | act action next ih => exact ih _ (sim.lost_kept lost action)
  | ask request next ih =>
    have after := below request world lost
    rw [carryOut]
    cases met : answer request world with
    | mk result final =>
      rw [met] at after
      cases result with
      | ok value => exact ih value after
      | error reason => exact after

theorem Request.perform_lost (depth : Nat) (request : Request) (lost : sim.lost world) :
    sim.lost (request.perform depth world).2 := by
  induction depth generalizing request world with
  | zero => exact lost
  | succ depth ih => exact request.plan.carryOut_lost (fun inner start => ih inner) lost

/-- A request that is met alike, with what comes after it. -/
private theorem Plan.carryOut_ask {answer : Request → World → Ending Value}
    {next : Value → Plan α} {next' : Value → Plan β}
    (stays : ∀ request world, sim.lost world → sim.lost (answer request world).2)
    (met : sim.Follows (Alike sim.toMatching) (answer request w) (answer request' w'))
    (rest : ∀ value value', Alike sim.toMatching value value' → ∀ {w w'}, sim.world w w' →
      sim.Follows post ((next value).carryOut answer w) ((next' value').carryOut answer w')) :
    sim.Follows post ((ask request next).carryOut answer w) ((ask request' next').carryOut answer w') := by
  simp only [carryOut]
  generalize answer request w = ending at met
  generalize answer request' w' = ending' at met
  rcases met with lost | alike
  · obtain ⟨result, after⟩ := ending
    cases result with
    | ok value => exact .inl (carryOut_lost stays (next value) lost)
    | error reason => exact .inl lost
  · cases alike with
    | ok kept worlds => exact rest _ _ kept worlds
    | failed serials worlds => exact .inr (.failed serials worlds)
    | malformed allowed worlds => exact .inr (.malformed allowed worlds)
    | tooDeep worlds => exact .inr (.tooDeep worlds)

/-- Plans in parallel, carried out in worlds that correspond, end alike if their requests do. -/
theorem Plan.carryOut_parallel {answer : Request → World → Ending Value}
    (stays : ∀ request world, sim.lost world → sim.lost (answer request world).2)
    (below : ∀ request request' w w', request.Parallel sim.toMatching request' → sim.world w w' →
      sim.Follows (Alike sim.toMatching) (answer request w) (answer request' w'))
    (plans : Parallel sim.toMatching post plan plan') (worlds : sim.world w w') :
    sim.Follows post (plan.carryOut answer w) (plan'.carryOut answer w') := by
  induction plans generalizing w w' with
  | done kept => exact .inr (.ok kept worlds)
  | failed serials => exact .inr (.failed serials worlds)
  | malformed allowed => exact .inr (.malformed allowed worlds)
  | @takeSerial next _ _ ih =>
    rcases sim.takeSerial_kept worlds with lost | ⟨serials, after⟩
    · exact .inl (carryOut_lost stays (next _) lost)
    · exact ih _ _ serials after
  | addScope scopes bound _ ih =>
    obtain ⟨own, after⟩ := sim.addScope_kept worlds scopes bound
    exact ih _ _ own after
  | bind scopes allowed alike _ ih => exact ih (sim.bind_kept worlds scopes allowed alike)
  | find scopes allowed _ ih => exact ih _ _ (sim.find_kept worlds scopes allowed) worlds
  | print _ ih => exact ih (sim.print_kept worlds)
  | log _ ih => exact ih (sim.log_kept worlds)
  | @readLine next _ _ ih =>
    rcases sim.readLine_kept worlds with lost | ⟨sameLine, after⟩
    · exact .inl (carryOut_lost stays (next _) lost)
    · simp only [carryOut, Action.perform, ← sameLine]
      exact ih _ after
  | eval allowed scopes _ ih => exact carryOut_ask stays (below _ _ _ _ (.eval allowed scopes) worlds) ih
  | apply callees passed _ ih => exact carryOut_ask stays (below _ _ _ _ (.apply callees passed) worlds) ih
  | compare lefts rights _ ih => exact carryOut_ask stays (below _ _ _ _ (.compare lefts rights) worlds) ih

/-- The same request, in worlds that correspond, is met alike at every depth. -/
theorem Request.perform_parallel (depth : Nat) (requests : Request.Parallel sim.toMatching request request')
    (worlds : sim.world w w') :
    sim.Follows (Alike sim.toMatching) (request.perform depth w) (request'.perform depth w') := by
  induction depth generalizing request request' w w' with
  | zero => exact .inr (.tooDeep worlds)
  | succ depth ih =>
    exact Plan.carryOut_parallel (fun inner start => perform_lost depth inner)
      (fun inner inner' w w' => ih) (plan_parallel requests) worlds

end TreeWalk
