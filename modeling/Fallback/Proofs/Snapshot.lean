import Fallback.Proofs.Course
import Fallback.Proofs.Linkage

/-!
The environment is a snapshot.

An evaluation looks names up in the environment as it was when the evaluation started, whatever the
routines that it runs do to the environment of their caller in the meantime. `Caller` is the state
of a host whose routines can get at that environment, and `World.rest` is all of the world but it.
The environment that an evaluation is for (`Host.evaluates`) is that very one. It is in the world
when the evaluation starts, and it is in the world that every routine is run in; only the frame has
a copy of it (`Request.copying`).

Where no routine reads the environment of the caller (`Host.Overlooks`), nothing depends on it but
itself: not even whether the routines write to it, which those of `Host.frozen` do not. What becomes
of it is settled by what the host is asked for alone. `Host.noting` keeps a record of that, and does
nothing else besides, so `Host.queries` lists what an evaluation asks of the host.
-/
namespace Fallback

variable {σ τ : Type}

/-! ## The environment of the caller -/

/-- What a host keeps whose routines can get at the environment of the caller. -/
structure Caller (τ : Type) where
  environment : Environment
  rest : τ

/-- The environment of the caller, where an evaluation finds it. -/
def Caller.environment? (c : Caller τ) : Option Environment :=
  some c.environment

/-- The evaluation of a tree in the environment of the caller. -/
def Host.evaluates (host : Host (Caller τ)) (q : Request) (root : NodeRef) :
    Act (Caller τ) Outcome :=
  evaluateFor host Caller.environment? q (.node root)

/-- The request with a copy of the environment that the caller has in a world. -/
def Request.copying (q : Request) (w : World (Caller τ)) : Request :=
  q.within (some w.host.environment)

theorem Host.runOn_evaluates (host : Host (Caller τ)) (q : Request) (root : NodeRef)
    (w : World (Caller τ)) :
    (host.evaluates q root).runOn w = (evaluate host (q.copying w) (.node root)).runOn w :=
  rfl

/-- All of the world but the environment of the caller. -/
def World.rest (w : World (Caller τ)) : World τ :=
  ⟨w.store, w.trace, w.log, w.host.rest⟩

/-- The world with another environment of the caller. -/
def World.withEnvironment (w : World (Caller τ)) (environment : Environment) : World (Caller τ) :=
  { w with host := ⟨environment, w.host.rest⟩ }

/-- The callers differ in their environments only. -/
def Caller.SameRest (c c' : Caller τ) : Prop :=
  c.rest = c'.rest

/-- Neither a routine nor a truth test reads the environment of the caller. -/
def Host.Overlooks (host : Host (Caller τ)) : Prop :=
  host.Linked Caller.SameRest host

/-- The host whose routines and truth tests do the same and leave the environment of the caller as
it is. -/
def Host.frozen (host : Host (Caller τ)) : Host (Caller τ) where
  run r args w := ((host.run r args w).1, (host.run r args w).2.withEnvironment w.host.environment)
  truth o w := ((host.truth o w).1, (host.truth o w).2.withEnvironment w.host.environment)

/-- A name of the environment is bound or unbound. -/
inductive Write
  | bind (name : String) (v : Value)
  | unbind (name : String)

/-- The environment after a write. -/
def Write.apply (environment : Environment) : Write → Environment
  | .bind name v => environment.set name v
  | .unbind name => environment.unset name

/-! ## Queries to the host -/

/-- What a host is asked for: to run a routine, or to test an object. -/
inductive Query
  | run (r : RoutineRef) (args : List Value)
  | truth (o : ObjectRef)

/-- The world that the answer to a query leaves. -/
def Host.after (host : Host σ) : Query → World σ → World σ
  | .run r args, w => (host.run r args w).2
  | .truth o, w => (host.truth o w).2

/-- The answer to a query writes to the environment of the caller what `writes` says, and nothing
else. -/
def Host.Writes (host : Host (Caller τ)) (writes : Query → World τ → List Write) : Prop :=
  ∀ query w, (host.after query w).host.environment =
    (writes query w.rest).foldl Write.apply w.host.environment

/-- Queries to a host, each with what it found of the world. -/
abbrev Queries (τ : Type) : Type := List (Query × World τ)

/-- The world with some queries noted. -/
def World.noting (w : World (Caller τ)) (queries : Queries τ) : World (Caller (τ × Queries τ)) :=
  ⟨w.store, w.trace, w.log, ⟨w.host.environment, (w.host.rest, queries)⟩⟩

/-- The world without the queries that are noted. -/
def World.unnoted (w : World (Caller (τ × Queries τ))) : World (Caller τ) :=
  ⟨w.store, w.trace, w.log, ⟨w.host.environment, w.host.rest.1⟩⟩

/-- The host that gives the same answers and notes each query. -/
def Host.noting (host : Host (Caller τ)) : Host (Caller (τ × Queries τ)) where
  run r args w := ((host.run r args w.unnoted).1,
    (host.run r args w.unnoted).2.noting (w.host.rest.2 ++ [(.run r args, w.unnoted.rest)]))
  truth o w := ((host.truth o w.unnoted).1,
    (host.truth o w.unnoted).2.noting (w.host.rest.2 ++ [(.truth o, w.unnoted.rest)]))

/-- The queries to the host while a tree is evaluated in the environment of the caller. -/
def Host.queries (host : Host (Caller τ)) (q : Request) (root : NodeRef) (w : World (Caller τ)) :
    Queries τ :=
  ((host.noting.evaluates q root).runOn (w.noting [])).2.host.rest.2

theorem Host.queries_eq (host : Host (Caller τ)) (q : Request) (root : NodeRef)
    (w : World (Caller τ)) :
    host.queries q root w =
      ((evaluate host.noting (q.copying w) (.node root)).runOn (w.noting [])).2.host.rest.2 :=
  rfl

/-- The environment after what the answers to some queries write, in their order. -/
def Environment.after (environment : Environment) (writes : Query → World τ → List Write)
    (queries : Queries τ) : Environment :=
  (queries.flatMap fun query => writes query.1 query.2).foldl Write.apply environment

theorem Environment.after_concat (environment : Environment)
    (writes : Query → World τ → List Write) (queries : Queries τ) (query : Query × World τ) :
    environment.after writes (queries ++ [query]) =
      (writes query.1 query.2).foldl Write.apply (environment.after writes queries) := by
  rw [after, List.flatMap_append, List.foldl_append, List.flatMap_singleton]
  rfl

/-! ## Hosts that are linked -/

section Links

variable {host host' : Host (Caller τ)}

theorem World.linked_of_rest_eq {w w' : World (Caller τ)} (same : w.rest = w'.rest) :
    w.Linked Caller.SameRest w' := by
  obtain ⟨store, trace, log, ⟨environment, rest⟩⟩ := w
  obtain ⟨store', trace', log', ⟨environment', rest'⟩⟩ := w'
  cases same
  exact ⟨rfl, rfl, rfl, rfl⟩

theorem World.Linked.rest_eq {w w' : World (Caller τ)} (h : w.Linked Caller.SameRest w') :
    w.rest = w'.rest := by
  obtain ⟨store, trace, log, ⟨environment, rest⟩⟩ := w
  obtain ⟨store', trace', log', ⟨environment', rest'⟩⟩ := w'
  obtain ⟨rfl, rfl, rfl, same⟩ := h
  cases same
  rfl

/-- A host that overlooks the environment of the caller does the same when it does not write to it
either. -/
theorem Host.Overlooks.frozen (h : host.Overlooks) :
    host.Linked Caller.SameRest host.frozen := by
  refine ⟨fun r args w w' worlds => ?_, fun o w w' worlds => ?_⟩
  · obtain ⟨result, ends⟩ := h.run r args worlds
    exact ⟨result, ends.store, ends.trace, ends.log, ends.host⟩
  · obtain ⟨result, ends⟩ := h.truth o worlds
    exact ⟨result, ends.store, ends.trace, ends.log, ends.host⟩

/-- Hosts that do the same but for the environment of the caller still do when they note the
queries to them. -/
theorem Host.Linked.noting (h : host.Linked Caller.SameRest host') :
    host.noting.Linked Caller.SameRest host'.noting := by
  have unnoted {w w' : World (Caller (τ × Queries τ))} (worlds : w.Linked Caller.SameRest w') :
      w.unnoted.Linked Caller.SameRest w'.unnoted ∧ w.host.rest.2 = w'.host.rest.2 :=
    ⟨⟨worlds.store, worlds.trace, worlds.log, congrArg Prod.fst worlds.host⟩,
      congrArg Prod.snd worlds.host⟩
  have noted {w w' : World (Caller τ)} {queries queries' : Queries τ}
      (worlds : w.Linked Caller.SameRest w') (same : queries = queries') :
      (w.noting queries).Linked Caller.SameRest (w'.noting queries') :=
    ⟨worlds.store, worlds.trace, worlds.log, Prod.ext worlds.host same⟩
  refine ⟨fun r args w w' worlds => ?_, fun o w w' worlds => ?_⟩
  · obtain ⟨worlds, queries⟩ := unnoted worlds
    obtain ⟨result, ends⟩ := h.run r args worlds
    exact ⟨result, noted ends (by rw [queries, worlds.rest_eq])⟩
  · obtain ⟨worlds, queries⟩ := unnoted worlds
    obtain ⟨result, ends⟩ := h.truth o worlds
    exact ⟨result, noted ends (by rw [queries, worlds.rest_eq])⟩

theorem Host.KeepsTrees.noting (hk : host.KeepsTrees) : host.noting.KeepsTrees :=
  ⟨fun r args w => hk.run r args w.unnoted, fun o w => hk.truth o w.unnoted⟩

/-- A host that notes the queries to it is in the state of the other host, and the environment of the
caller is what the answers to the noted queries have made of it. -/
structure Caller.Noted (host : Host (Caller τ)) (environment : Environment)
    (c : Caller (τ × Queries τ)) (c' : Caller τ) : Prop where
  environment_eq : c.environment = c'.environment
  rest_eq : c.rest.1 = c'.rest
  written {writes : Query → World τ → List Write} (h : host.Writes writes) :
    c.environment = environment.after writes c.rest.2

/-- The noting of queries changes nothing else. -/
theorem Host.linked_noting (host : Host (Caller τ)) (environment : Environment) :
    host.noting.Linked (Caller.Noted host environment) host := by
  have unnoted {w : World (Caller (τ × Queries τ))} {w' : World (Caller τ)}
      (worlds : w.Linked (Caller.Noted host environment) w') : w.unnoted = w' := by
    obtain ⟨store, trace, log, ⟨environment, rest⟩⟩ := w
    obtain ⟨store', trace', log', ⟨environment', rest'⟩⟩ := w'
    obtain ⟨rfl, rfl, rfl, ⟨rfl, rfl, -⟩⟩ := worlds
    rfl
  -- the writes of an answer come after those of the answers to what was noted before
  have noted {w : World (Caller (τ × Queries τ))} {w' : World (Caller τ)}
      (worlds : w.Linked (Caller.Noted host environment) w') (query : Query) :
      ((host.after query w.unnoted).noting (w.host.rest.2 ++ [(query, w.unnoted.rest)])).Linked
        (Caller.Noted host environment) (host.after query w.unnoted) := by
    refine ⟨rfl, rfl, rfl, rfl, rfl, fun {writes} h => ?_⟩
    show (host.after query w.unnoted).host.environment =
      environment.after writes (w.host.rest.2 ++ [(query, w.unnoted.rest)])
    rw [h, Environment.after_concat, ← worlds.host.written h]
    rfl
  refine ⟨fun r args w w' worlds => ?_, fun o w w' worlds => ?_⟩
  · have ends := noted worlds (.run r args)
    obtain rfl := unnoted worlds
    exact ⟨rfl, ends⟩
  · have ends := noted worlds (.truth o)
    obtain rfl := unnoted worlds
    exact ⟨rfl, ends⟩

end Links

/-! ## Names that are looked up -/

/-- What the look-up of a name comes to: the value that the environment binds to it, or the fault
that it binds none. -/
def Environment.Gives (environment : Environment) (name : Value) (text : String) (s : Store)
    (o : Outcome) : Prop :=
  match environment.get? text with
  | some v => o.result = .success v
  | none => ∃ e stamp stamp', o.result = .raised (.fault e) ∧
    s.fault e = ⟨.unboundName, .tuple [.str s!"Name '{text}' not found" stamp] stamp', .null,
      .null, [(Fault.subjectName, name)]⟩

/-- A name that is a text is always looked up with success. -/
theorem lookup_gives {name : Value} {text : String} {w : World σ} (vars : Environment)
    (named : w.store.text? name = some text) :
    ∃ o w', (lookup vars name).runOn w = (.ok o, w') ∧ vars.Gives name text w'.store o := by
  rw [runOn_lookup named]
  unfold Environment.Gives
  cases vars.get? text with
  | some v => exact ⟨_, _, rfl, rfl⟩
  | none =>
    exact ⟨_, _, rfl, _, _, _, rfl, Store.fault_addFault_self w.store.addStamp.2.addStamp.2 _⟩

namespace Position

variable {host : Host σ} {a c : Position σ}

/-- Every visit in the course of another runs in its environment. -/
theorem Reaches.vars_eq (h : a.Reaches host c) (sound : a.IsSound) (hk : host.KeepsTrees) :
    c.run.frame.vars = a.run.frame.vars := by
  induction h with
  | refl => rfl
  | tail reached step ih =>
    obtain ⟨slot, child⟩ := step
    rw [child.vars_eq (isSound_of_reaches reached sound hk) hk, ih]

/-- Every visit in the course of another runs with its debug switch. -/
theorem Reaches.debug_eq (h : a.Reaches host c) (sound : a.IsSound) (hk : host.KeepsTrees) :
    c.run.frame.debug = a.run.frame.debug := by
  induction h with
  | refl => rfl
  | tail reached step ih =>
    obtain ⟨slot, child⟩ := step
    rw [child.debug_eq (isSound_of_reaches reached sound hk) hk, ih]

/-- A visit whose rule has ended ends well if the truth of the debug switch can be told. -/
theorem Settles.ending_eq (hk : host.KeepsTrees) (sound : c.IsSound) {o : Outcome} {r : Run σ}
    (settled : c.Settles host o r) (answers : host.Answers c.run.frame.debug) :
    ∃ r', c.ending host = (.ok o, r') := by
  have push := settled.push_eq sound hk
  rcases left : (leaveNode host c.value c.kind o).runOn r with ⟨e | u, r'⟩
  · obtain ⟨failed, -⟩ := (leaveNode_eq_error_iff push).1 left
    rw [(Frame.settings_of_push push).2.1] at failed
    obtain ⟨b, told⟩ := answers (r.noted c.value o)
    rw [told] at failed
    cases failed
  · exact ⟨r', (ending_eq_ok_iff sound hk).2 ⟨r, settled, left⟩⟩

/-- Once a node that refers to a name was entered, the visit settles with what the look-up of the
name comes to, and ends with nothing else. -/
theorem settles_of_reference (hk : host.KeepsTrees) (sound : c.IsSound) {name : Value}
    (form : c.form = .reference name) {r : Run σ} (entered : c.Progress host [] r) :
    ∃ text o r', c.run.world.store.text? name = some text ∧ c.Settles host o r' ∧
      c.run.frame.vars.Gives name text r'.world.store o ∧
      ∀ o' r'', c.ending host = (.ok o', r'') → o' = o := by
  have fit := sound.tree.whole.fit
  rw [show c.run.world.store.form c.node = .reference name from form] at fit
  obtain ⟨⟨text, named, -⟩, lasting⟩ := fit
  have there := Store.text?_of_le (entered.push_eq sound hk).2 lasting named
  obtain ⟨o, w, found, gives⟩ := lookup_gives c.run.frame.vars there
  have decides (os : List Outcome) :
      (c.form.next host os).runOn r = (.ok (.finish o), { r with world := w }) := by
    rw [form]
    refine (Work.runOn_bind_ok (a := o) (t := { r with world := w }) ?_ _).trans rfl
    rw [lookupInFrame, Work.runOn_bind_ok (Eval.runOn_frame r), Eval.runOn_ofAct,
      entered.vars_eq sound hk, found]
  refine ⟨text, o, _, named, ⟨[], r, entered, .inr (decides [])⟩, gives, fun o' r'' ended => ?_⟩
  obtain ⟨r₁, ⟨os, r₀, progress, decided⟩, -⟩ := (ending_eq_ok_iff sound hk).1 ended
  cases progress with
  | visited before decided' visit =>
    exact absurd (Form.next_visit_mem decided') (by rw [form]; exact List.not_mem_nil)
  | entered budget enter =>
    obtain ⟨-, rfl⟩ := entered.unique (.entered budget enter) rfl
    rw [decides] at decided
    obtain kept | finished := decided
    · cases kept
    · cases finished
      rfl

end Position

/-! ## Whole evaluations -/

/-- Evaluations from worlds that differ in the environment of the caller only end alike in hosts
that do the same but for that environment, and the hosts are asked the same, provided that the
environments bind the names that the tree looks up to the same values. -/
theorem evaluates_of_linked {host host' : Host (Caller τ)} (hk : host.KeepsTrees)
    (linked : host.Linked Caller.SameRest host') {q q' : Request} {w w' : World (Caller τ)}
    (same : w.rest = w'.rest) {root : NodeRef} (tree : w.store.IsTree root)
    (agrees : (q.copying w).AgreesOn w.store root (q'.copying w')) :
    ((host.evaluates q root).runOn w).1 = ((host'.evaluates q' root).runOn w').1 ∧
    ((host.evaluates q root).runOn w).2.rest = ((host'.evaluates q' root).runOn w').2.rest ∧
    host.queries q root w = host'.queries q' root w' := by
  have worlds := World.linked_of_rest_eq same
  obtain ⟨result, ends⟩ := linked_evaluate linked hk worlds tree agrees
  have noting : (w.noting []).Linked Caller.SameRest (w'.noting []) :=
    ⟨worlds.store, worlds.trace, worlds.log, Prod.ext worlds.host rfl⟩
  obtain ⟨-, noted⟩ := linked_evaluate linked.noting hk.noting noting tree agrees
  exact ⟨result, ends.rest_eq, congrArg Prod.snd noted.host⟩

/-- An evaluation goes the same way in a host that notes the queries to it, and what has become of
the environment of the caller are the writes of the answers to these. -/
theorem evaluates_noting {host : Host (Caller τ)} (hk : host.KeepsTrees) (q : Request)
    {w : World (Caller τ)} {root : NodeRef} (tree : w.store.IsTree root) :
    (host.noting.evaluates q root).runOn (w.noting []) =
      (((host.evaluates q root).runOn w).1,
        ((host.evaluates q root).runOn w).2.noting (host.queries q root w)) ∧
    ∀ writes, host.Writes writes →
      ((host.evaluates q root).runOn w).2.host.environment =
        w.host.environment.after writes (host.queries q root w) := by
  have noting : (w.noting []).Linked (Caller.Noted host w.host.environment) w :=
    ⟨rfl, rfl, rfl, rfl, rfl, fun _ => rfl⟩
  obtain ⟨result, ends⟩ := linked_evaluate (host.linked_noting w.host.environment) hk.noting noting
    tree (.refl w.store root (q.copying w))
  refine ⟨Prod.ext result ?_, fun writes h => ?_⟩
  · show ((evaluate host.noting (q.copying w) (.node root)).runOn (w.noting [])).2 =
      World.noting _ (host.queries q root w)
    rw [Host.queries_eq, Host.runOn_evaluates]
    generalize ((evaluate host.noting (q.copying w) (.node root)).runOn (w.noting [])).2 = u
      at ends
    generalize ((evaluate host (q.copying w) (.node root)).runOn w).2 = u' at ends
    obtain ⟨store, trace, log, ⟨environment, rest⟩⟩ := u
    obtain ⟨store', trace', log', ⟨environment', rest'⟩⟩ := u'
    obtain ⟨rfl, rfl, rfl, ⟨rfl, rfl, -⟩⟩ := ends
    rfl
  · rw [Host.runOn_evaluates, ← ends.host.environment_eq]
    exact ends.host.written h

/-- The environment is a snapshot. An evaluation reads the environment of its caller when it starts,
and not again: whatever the routines do to that environment later, every reference that is entered
gives what it bound at the start. Where no routine reads the environment of its caller, the
evaluation ends with the same result in the same world, and the host is asked the same, whether or
not its answers write to the environment, and whatever the environment binds at the start to names
that the tree does not look up. And what has become of the environment of the caller are the writes
of the answers, one after the other. -/
theorem runOn_evaluate_of_snapshot {host : Host (Caller τ)} (hk : host.KeepsTrees) (q : Request)
    {w : World (Caller τ)} {root : NodeRef} (tree : w.store.IsTree root) :
    (host.evaluates q root).runOn w = (evaluate host (q.copying w) (.node root)).runOn w ∧
    (∀ c name r, (Position.start (q.copying w) root w).Reaches host c → c.form = .reference name →
      c.Progress host [] r →
      ∃ text o r', c.run.world.store.text? name = some text ∧ c.Settles host o r' ∧
        w.host.environment.Gives name text r'.world.store o ∧
        (∀ o' r'', c.ending host = (.ok o', r'') → o' = o) ∧
        (host.Answers q.options.debugTrace → ∃ r'', c.ending host = (.ok o, r''))) ∧
    (host.Overlooks → ∀ host', host' = host ∨ host' = host.frozen → ∀ q' w', w.rest = w'.rest →
      (q.copying w).AgreesOn w.store root (q'.copying w') →
      ((host.evaluates q root).runOn w).1 = ((host'.evaluates q' root).runOn w').1 ∧
      ((host.evaluates q root).runOn w).2.rest = ((host'.evaluates q' root).runOn w').2.rest ∧
      host.queries q root w = host'.queries q' root w') ∧
    (host.noting.evaluates q root).runOn (w.noting []) =
      (((host.evaluates q root).runOn w).1,
        ((host.evaluates q root).runOn w).2.noting (host.queries q root w)) ∧
    ∀ writes, host.Writes writes →
      ((host.evaluates q root).runOn w).2.host.environment =
        w.host.environment.after writes (host.queries q root w) := by
  refine ⟨host.runOn_evaluates q root w, fun c name r reached form entered => ?_,
    fun overlooks host' hosts q' w' same agrees => ?_, evaluates_noting hk q tree⟩
  · have start := Position.isSound_start (q.copying w) tree
    have sound := Position.isSound_of_reaches reached start hk
    obtain ⟨text, o, r', named, settled, gives, only⟩ :=
      Position.settles_of_reference hk sound form entered
    rw [reached.vars_eq start hk] at gives
    refine ⟨text, o, r', named, settled, gives, only, fun answers => ?_⟩
    rw [← show c.run.frame.debug = q.options.debugTrace from reached.debug_eq start hk] at answers
    exact settled.ending_eq hk sound answers
  · have linked : host.Linked Caller.SameRest host' := by
      obtain rfl | rfl := hosts
      · exact overlooks
      · exact overlooks.frozen
    exact evaluates_of_linked hk linked same tree agrees

/-- What the routines write: the name `x` is bound to two. -/
def rebindingWrites : Query → World Unit → List Write
  | .run _ _, _ => [.bind "x" (.int 2 0)]
  | .truth _, _ => []

/-- A host whose routines bind a name of the environment of their caller and give null. -/
def rebindingHost : Host (Caller Unit) :=
  ⟨fun _ _ w => (.ok .null, w.withEnvironment (w.host.environment.set "x" (.int 2 0))),
    fun _ w => (.ok true, w)⟩

/-- A world with a call of a routine that falls back to the name, which the caller has bound to
one. -/
def rebindingWorld : World (Caller Unit) :=
  ⟨{ Store.empty with nodes := #[
      ⟨.literal (.routine ⟨0⟩), .null, []⟩,
      ⟨.call (.node ⟨0⟩) (.tuple [] Store.noStamp), .null, []⟩,
      ⟨.reference (.str "x" Store.noStamp), .null, []⟩,
      ⟨.fallback .onNull (.node ⟨1⟩) (.node ⟨2⟩), .null, []⟩] }, .empty, #[],
    ⟨[("x", .int 1 0)], ()⟩⟩

/-- The routine binds the name anew in the environment of the caller before the reference to it is
entered; the reference still gives what was bound at the start, as it does where the routine binds
nothing. A second evaluation for the same caller gives what the routine has bound. -/
theorem runOn_evaluate_of_rebinding :
    let q := Request.standard
    rebindingHost.KeepsTrees ∧ rebindingWorld.store.IsTree ⟨3⟩ ∧ rebindingHost.Overlooks ∧
    rebindingHost.Writes rebindingWrites ∧
    ((rebindingHost.evaluates q ⟨3⟩).runOn rebindingWorld).1.toOption.map
      (fun o => (o.isRaised, o.value.int?)) = some (false, some 1) ∧
    ((rebindingHost.evaluates q ⟨3⟩).runOn rebindingWorld).1 =
      ((rebindingHost.frozen.evaluates q ⟨3⟩).runOn rebindingWorld).1 ∧
    (rebindingHost.queries q ⟨3⟩ rebindingWorld).length = 1 ∧
    ((rebindingHost.evaluates q ⟨3⟩).runOn rebindingWorld).2.host.environment =
      rebindingWorld.host.environment.after rebindingWrites
        (rebindingHost.queries q ⟨3⟩ rebindingWorld) ∧
    (((rebindingHost.evaluates q ⟨3⟩).runOn rebindingWorld).2.host.environment.get?
      "x").bind Value.int? = some 2 ∧
    ((rebindingHost.evaluates q ⟨3⟩).runOn
      ((rebindingHost.evaluates q ⟨3⟩).runOn rebindingWorld).2).1.toOption.map
        (fun o => (o.isRaised, o.value.int?)) = some (false, some 2) := by
  intro q
  have keeps : rebindingHost.KeepsTrees := ⟨fun _ _ _ => le_refl _, fun _ _ => le_refl _⟩
  have overlooks : rebindingHost.Overlooks :=
    ⟨fun _ _ _ _ worlds => ⟨rfl, worlds.store, worlds.trace, worlds.log, worlds.host⟩,
      fun _ _ _ worlds => ⟨rfl, worlds⟩⟩
  have writes : rebindingHost.Writes rebindingWrites := by
    intro query w
    cases query with
    | run r args => rfl
    | truth o => rfl
  have leaf (n : NodeRef) (made : n.index < 4) (fit : (rebindingWorld.store.form n).IsFit _)
      (none : (rebindingWorld.store.form n).operands = []) : rebindingWorld.store.IsTree n :=
    .of_trees [] made fit none fun _ mem => absurd mem List.not_mem_nil
  have callee := leaf ⟨0⟩ (by decide) trivial rfl
  have reference := leaf ⟨2⟩ (by decide) ⟨⟨"x", rfl, by decide⟩, fun _ same => by cases same⟩ rfl
  have call : rebindingWorld.store.IsTree ⟨1⟩ :=
    .of_trees [⟨0⟩] (by decide) ⟨[], Store.noStamp, rfl⟩ rfl (by simpa using callee)
  have tree : rebindingWorld.store.IsTree ⟨3⟩ :=
    .of_trees [⟨1⟩, ⟨2⟩] (by decide) trivial rfl (by simpa using ⟨call, reference⟩)
  obtain ⟨-, -, same, -, written⟩ := runOn_evaluate_of_snapshot keeps q tree
  obtain ⟨unwritten, -⟩ := same overlooks rebindingHost.frozen (.inr rfl) q rebindingWorld rfl
    (.refl _ _ _)
  exact ⟨keeps, tree, overlooks, writes, by decide +kernel, unwritten, by decide +kernel,
    written rebindingWrites writes, by decide +kernel, by decide +kernel⟩

end Fallback
