import RegisterScheme.Proofs.Correctness.Execution
import RegisterScheme.Proofs.Machine.InStep
import RegisterScheme.Session

/-! Sessions with caches and without. What a closure remembers about its variables never shows: not
in what is asked of a session, nor in its globals, nor at any moment in between. -/

namespace RegisterScheme

/-- What closures find when they look for their variables, in whichever way. -/
structure Store.Finds (N : Nat → Prop) (made : List Closure) (s : Store) : Prop where
  /-- The cell of a global is the one that its name has at the moment. -/
  cell : ∀ c ∈ made, ∀ index name, c.template.NamesGlobal index name → ∃ a t u,
    Running.globalCell true c index s = .ok a t ∧ Running.cell name s = .ok a u ∧
      t.globals = u.globals
  /-- The frame of a captured variable is the one at the end of a walk along the parent links. -/
  owner : ∀ c ∈ made, ∀ (slot : Nat) v distance r, c.template.slots[slot]? = some v →
    v.kind = .captured distance r → ∀ a q,
      (∃ t, Running.capturedPlace true c slot s = .ok (a, q) t) ↔
        Running.outward (distance - 1) c.parent s = .ok (some a) s ∧ q = r
  /-- A closure reads the value that a global has by now. -/
  current : ∀ c ∈ made, ∀ index name, c.template.NamesGlobal index name → ∃ t,
    (do Running.readCell (← Running.globalCell true c index)) s =
      .ok ((s.globals.find? name).getD .nil) t
  /-- It sees a definition from outside, and what another closure assigns. -/
  defined : ∀ c ∈ made, ∀ index name, c.template.NamesGlobal index name →
    ∀ v : Value, v.BuiltFrom (· ∈ made) N → ∃ t,
      (do Running.readCell (← Running.globalCell true c index))
        { s with globals := s.globals.set name v } = .ok v t
  assigned : ∀ c ∈ made, ∀ d ∈ made, ∀ index j name, c.template.NamesGlobal index name →
    d.template.NamesGlobal j name → ∀ v : Value, v.BuiltFrom (· ∈ made) N → ∃ t,
      (do
        Running.writeCell (← Running.globalCell true d j) v
        Running.readCell (← Running.globalCell true c index)) s = .ok v t

namespace Store.Coherent

variable {N : Nat → Prop} {made : List Closure} {s : Store} {c d : Closure} {index j : Nat}
  {name : String} {v : Value}

theorem globalCell_eq (h : s.Coherent N made) (hc : c ∈ made)
    (hname : c.template.NamesGlobal index name) : ∃ t,
      Running.globalCell true c index s = .ok (s.globals.touch name).1 t ∧
      t.globals = (s.globals.touch name).2 ∧ t.Coherent N made := by
  obtain ⟨t, hrun, hforget, ht⟩ := Running.globalCell_true h hc hname
  exact ⟨t, hrun, congrArg Store.globals hforget, ht⟩

theorem read_eq (h : s.Coherent N made) (hc : c ∈ made)
    (hname : c.template.NamesGlobal index name) : ∃ t,
      (do Running.readCell (← Running.globalCell true c index)) s =
        .ok ((s.globals.find? name).getD .nil) t := by
  obtain ⟨t, hrun, hglobals, -⟩ := h.globalCell_eq hc hname
  have hvalue : t.globals.read? (s.globals.touch name).1 = s.globals.find? name := by
    rw [hglobals, ← Globals.find?_touch s.globals name name, Globals.find?,
      Globals.address?_touch, Option.bind_some]
  refine ⟨t, ?_⟩
  rw [bind_of_ok hrun, ← hvalue]
  rfl

theorem write_eq (h : s.Coherent N made) (hd : d ∈ made) (hj : d.template.NamesGlobal j name)
    (hv : v.BuiltFrom (· ∈ made) N) : ∃ t,
      (do Running.writeCell (← Running.globalCell true d j) v) s = .ok () t ∧
      t.globals = s.globals.set name v ∧ t.Coherent N made := by
  obtain ⟨t, hrun, hglobals, ht⟩ := h.globalCell_eq hd hj
  refine ⟨{ t with globals := t.globals.write (s.globals.touch name).1 v }, ?_, ?_, ht.write _ hv⟩
  · rw [bind_of_ok hrun]
    rfl
  · rw [hglobals]
    rfl

theorem define (h : s.Coherent N made) (name : String) (hv : v.BuiltFrom (· ∈ made) N) :
    Store.Coherent N made { s with globals := s.globals.set name v } :=
  (h.touch name).write (s.globals.touch name).1 hv

theorem capturedPlace_iff (h : s.Coherent N made) (hc : c ∈ made) {slot distance : Nat}
    {u : Variable} {r : Register} (hslot : c.template.slots[slot]? = some u)
    (hkind : u.kind = .captured distance r) (a : Nat) (q : Register) :
    (∃ t, Running.capturedPlace true c slot s = .ok (a, q) t) ↔
      Running.outward (distance - 1) c.parent s = .ok (some a) s ∧ q = r := by
  have hplain : s.forget.Extends s := extends_of_eq rfl rfl
  have hcached : s.Extends s.forget := extends_of_eq rfl rfl
  have hplace : Running.capturedPlace true c slot =
      (do return (← Running.owner true c slot distance, r)) := by
    obtain ⟨name, kind, initializer⟩ := u
    obtain rfl : kind = .captured distance r := hkind
    rw [Running.capturedPlace, hslot]
  rw [hplace]
  obtain ⟨b, t, hx, hy, -⟩ | ⟨e, t, hx, hy, -⟩ := Transparent.owner hc hslot hkind s h
  · have hwalk := Running.outward_extends hplain (Running.walk_of_owner hy)
    rw [bind_of_ok hx, hwalk]
    constructor
    · rintro ⟨_, hplace⟩
      cases hplace
      exact ⟨rfl, rfl⟩
    · rintro ⟨ha, rfl⟩
      cases ha
      exact ⟨t, rfl⟩
  · constructor
    · rintro ⟨_, hplace⟩
      rw [bind_of_error hx] at hplace
      cases hplace
    · rintro ⟨ha, -⟩
      rw [Running.owner_of_walk slot (Running.outward_extends hcached ha)] at hy
      cases hy

theorem finds (h : s.Coherent N made) : s.Finds N made where
  cell c hc index name hname := by
    obtain ⟨t, hrun, hglobals, -⟩ := h.globalCell_eq hc hname
    exact ⟨_, t, _, hrun, rfl, hglobals⟩
  owner c hc slot v distance r hslot hkind := h.capturedPlace_iff hc hslot hkind
  current c hc index name hname := h.read_eq hc hname
  defined c hc index name hname v hv := by
    have hread := (h.define name hv).read_eq hc hname
    rwa [Globals.find?_set, if_pos rfl] at hread
  assigned c hc d hd index j name hname hj v hv := by
    obtain ⟨t, hwrite, hglobals, ht⟩ := h.write_eq hd hj hv
    obtain ⟨u, hread⟩ := ht.read_eq hc hname
    rw [hglobals, Globals.find?_set, if_pos rfl] at hread
    refine ⟨u, ?_⟩
    rw [← bind_assoc, bind_of_ok hwrite]
    exact hread

end Store.Coherent

namespace Session

/-- What may be asked of a session. -/
inductive Request where
  | compile (origin text : String)
  | execute (t : Template)
  | apply (callee : Value) (args : List Value)
  | define (name : String) (v : Value)

inductive Reply where
  | compiled (result : Except Failure Template)
  | evaluated (result : Except Failure Value)
  | defined

def serve (s : Session) : Request → Reply × Session
  | .compile origin text =>
    let (result, s) := s.compile origin text
    (.compiled result, s)
  | .execute t =>
    let (result, s) := s.execute t
    (.evaluated result, s)
  | .apply callee args =>
    let (result, s) := s.apply callee args
    (.evaluated result, s)
  | .define name v => (.defined, s.define name v)

/-- One request after the other. -/
def serveAll (s : Session) : List Request → List Reply × Session
  | [] => ([], s)
  | r :: requests =>
    let (reply, s) := s.serve r
    let (replies, s) := s.serveAll requests
    (reply :: replies, s)

/-- The values in a request are made of data, known natives and closures that there are. -/
def Request.Known (made : List Closure) (N : Nat → Prop) : Request → Prop
  | .compile _ _ | .execute _ => True
  | .apply callee args =>
    callee.BuiltFrom (· ∈ made) N ∧ ∀ v ∈ args, v.BuiltFrom (· ∈ made) N
  | .define _ v => v.BuiltFrom (· ∈ made) N

def withCaching (s : Session) (caching : Bool) : Session :=
  { s with machine := s.machine.withCaching caching }

/-- The same session where no closure remembers anything. -/
def withoutCaches (s : Session) : Session :=
  { s.withCaching false with store := s.store.forget }

variable {α : Type} {s : Session} {act : Running α} {t : Store}

theorem run_of_ok {a : α} (h : act s.store = .ok a t) :
    s.run act = (.ok a, { s with store := t }) := by
  rw [run, h]

theorem run_of_error {e : Failure} (h : act s.store = .error e t) :
    s.run act = (.error e, { s with store := t }) := by
  rw [run, h]

/-- Compilation looks at no cache. -/
theorem withoutCaches_compile (s : Session) (origin text : String) :
    s.withoutCaches.compile origin text =
      ((s.compile origin text).1, (s.compile origin text).2.withoutCaches) := by
  have hnext : s.withoutCaches.store.nextObject = s.store.nextObject := rfl
  rw [compile, compile, hnext]
  dsimp only [withoutCaches, withCaching]
  cases Program.ofText s.options s.primitives s.store.nextObject origin text <;> rfl

/-- It changes the identity of the next object at most. -/
theorem compile_machine_store (s : Session) (origin text : String) :
    (s.compile origin text).2.machine = s.machine ∧
      ∃ n, (s.compile origin text).2.store = { s.store with nextObject := n } := by
  rw [compile]
  cases Program.ofText s.options s.primitives s.store.nextObject origin text with
  | ok p => exact ⟨rfl, p.nextObject, rfl⟩
  | error e => exact ⟨rfl, s.store.nextObject, rfl⟩

end Session

/-- A session under watch. -/
structure WatchedSession where
  session : Session
  made : List Closure
  moments : List Moment

namespace WatchedSession

open Session

def start (s : Session) : WatchedSession := ⟨s, [], []⟩

def watched (w : WatchedSession) : Watched := ⟨w.session.store, w.made, w.moments⟩

def withWatched (w : WatchedSession) (o : Watched) : WatchedSession :=
  ⟨{ w.session with store := o.store }, o.made, o.moments⟩

def run (w : WatchedSession) (act : Watching Value) : Reply × WatchedSession :=
  (.evaluated (answer (act w.watched)), w.withWatched (remains (act w.watched)))

def serve (w : WatchedSession) : Request → Reply × WatchedSession
  | .execute t => w.run (w.session.machine.watchExecute t)
  | .apply callee args => w.run (w.session.machine.watchApply callee args)
  | r => ((w.session.serve r).1, { w with session := (w.session.serve r).2 })

def serveAll (w : WatchedSession) : List Request → List Reply × WatchedSession
  | [] => ([], w)
  | r :: requests =>
    let (reply, w) := w.serve r
    let (replies, w) := w.serveAll requests
    (reply :: replies, w)

/-- Each request contains only what there is by then. -/
def Allows (N : Nat → Prop) (w : WatchedSession) : List Request → Prop
  | [] => True
  | r :: requests => r.Known w.made N ∧ (w.serve r).2.Allows N requests

/-- A session with caches, in which what they hold has been right so far. -/
structure Sound (N : Nat → Prop) (w : WatchedSession) : Prop where
  watched : w.watched.Sound N
  caching : w.session.machine.caching = true
  trusted : w.session.machine.host.Trusted N

variable {N : Nat → Prop} {w : WatchedSession}

/-- What is served under watch, with caches alone and without caches is the same. -/
structure Serves (N : Nat → Prop) (w : WatchedSession) (r : Request) : Prop where
  cached : w.session.serve r = ((w.serve r).1, (w.serve r).2.session)
  plain : w.session.withoutCaches.serve r =
    ((w.serve r).1, (w.serve r).2.session.withoutCaches)
  sound : (w.serve r).2.Sound N

/-- What a computation of the machine comes to in three sessions. -/
theorem run_of_inStep (hw : w.Sound N) {act : Watching Value} {x y : Running Value}
    {Q : List Closure → Value → Prop} (h : InStep N w.made act x y Q) :
    w.session.run x = (answer (act w.watched), (w.run act).2.session) ∧
      w.session.withoutCaches.run y =
        (answer (act w.watched), (w.run act).2.session.withoutCaches) ∧
      (w.run act).2.Sound N := by
  obtain ⟨a, p, hact, hx, hy, hp, -⟩ | ⟨e, p, hact, hx, hy, hp, -⟩ :=
    h w.watched hw.watched rfl
  · have hcached := Session.run_of_ok (s := w.session) hx
    have hplain := Session.run_of_ok (s := w.session.withoutCaches) hy
    rw [hcached, hplain, run, hact]
    exact ⟨rfl, rfl, hp, hw.caching, hw.trusted⟩
  · have hcached := Session.run_of_error (s := w.session) hx
    have hplain := Session.run_of_error (s := w.session.withoutCaches) hy
    rw [hcached, hplain, run, hact]
    exact ⟨rfl, rfl, hp, hw.caching, hw.trusted⟩

theorem Sound.withCaching_true (hw : w.Sound N) :
    w.session.machine.withCaching true = w.session.machine := by
  rw [← hw.caching]
  rfl

/-- One request. -/
theorem Sound.serves (hw : w.Sound N) {r : Request} (hr : r.Known w.made N) : w.Serves N r := by
  have hmachine := hw.withCaching_true
  let replied (result : Except Failure Value × Session) : Reply × Session :=
    (.evaluated result.1, result.2)
  cases r with
  | compile origin text =>
    obtain ⟨hm, n, hn⟩ := w.session.compile_machine_store origin text
    have hstore : (w.session.compile origin text).2.store.Coherent N w.made := by
      rw [hn]
      exact hw.watched.store.withNextObject n
    have hplain := congrArg
      (fun result => ((.compiled result.1, result.2) : Reply × Session))
      (w.session.withoutCaches_compile origin text)
    refine ⟨rfl, hplain, hw.watched.withStore hstore, ?_, ?_⟩
    · exact (congrArg Machine.caching hm).trans hw.caching
    · exact (congrArg Machine.host hm) ▸ hw.trusted
  | execute t =>
    have h := @Machine.inStep_execute N w.made w.session.machine hw.trusted t
    rw [hmachine] at h
    obtain ⟨hcached, hplain, hsound⟩ := run_of_inStep hw h
    exact ⟨congrArg replied hcached, congrArg replied hplain, hsound⟩
  | apply callee args =>
    have h := Machine.inStep_apply hw.trusted hr.1 hr.2
    rw [hmachine] at h
    obtain ⟨hcached, hplain, hsound⟩ := run_of_inStep hw h
    exact ⟨congrArg replied hcached, congrArg replied hplain, hsound⟩
  | define name v =>
    have hstore := hw.watched.withStore (hw.watched.store.define name hr)
    exact ⟨rfl, rfl, hstore, hw.caching, hw.trusted⟩

/-- All requests, one after the other. -/
theorem Sound.servesAll (hw : w.Sound N) {requests : List Request} (hr : w.Allows N requests) :
    w.session.serveAll requests = ((w.serveAll requests).1, (w.serveAll requests).2.session) ∧
      w.session.withoutCaches.serveAll requests =
        ((w.serveAll requests).1, (w.serveAll requests).2.session.withoutCaches) ∧
      (w.serveAll requests).2.Sound N := by
  induction requests generalizing w with
  | nil => exact ⟨rfl, rfl, hw⟩
  | cons r requests ih =>
    obtain ⟨hknown, hrest⟩ := hr
    obtain ⟨hcached, hplain, hsound⟩ := hw.serves hknown
    obtain ⟨hcached', hplain', hsound'⟩ := ih hsound hrest
    refine ⟨?_, ?_, hsound'⟩
    · rw [Session.serveAll, hcached]
      dsimp only
      rw [hcached']
      rfl
    · rw [Session.serveAll, hplain]
      dsimp only
      rw [hplain']
      rfl

end WatchedSession

namespace Session

variable {N : Nat → Prop}

/-- What requests come to under watch, with caches. -/
def watchAll (s : Session) (requests : List Request) : List Reply × WatchedSession :=
  (WatchedSession.start (s.withCaching true)).serveAll requests

/-- Whether there are caches or not, requests come to the same, and the same is left behind. What
closures find is right whenever an instruction is about to be executed, and in the end. -/
structure CachesSilently (N : Nat → Prop) (s : Session) (requests : List Request) : Prop where
  cached : (s.withCaching true).serveAll requests =
    ((s.watchAll requests).1, (s.watchAll requests).2.session)
  plain : (s.withCaching false).serveAll requests =
    ((s.watchAll requests).1, (s.watchAll requests).2.session.withoutCaches)
  moments : ∀ m ∈ (s.watchAll requests).2.moments, m.here.closure ∈ m.made ∧
    m.made <+: (s.watchAll requests).2.made ∧ m.store.Finds N m.made
  after : (s.watchAll requests).2.session.store.Finds N (s.watchAll requests).2.made

/-- A session that starts from globals without closures may be asked for whatever there is by
then. -/
theorem cachesSilently {s : Session} {g : Globals} (hs : s.store = .ofGlobals g)
    (hg : g.BuiltFrom (fun _ => False) N) (hm : s.machine.host.Trusted N)
    {requests : List Request}
    (hr : (WatchedSession.start (s.withCaching true)).Allows N requests) :
    s.CachesSilently N requests := by
  have hcoherent : (s.withCaching true).store.Coherent N [] := by
    rw [withCaching, hs]
    exact Store.coherent_ofGlobals hg
  have hstart : (WatchedSession.start (s.withCaching true)).Sound N :=
    ⟨⟨hcoherent, fun m hm => by cases hm⟩, rfl, hm⟩
  have hplain : (s.withCaching true).withoutCaches = s.withCaching false := by
    have hforget : s.store.forget = s.store := by rw [hs, Store.forget_ofGlobals]
    rw [withoutCaches, withCaching, withCaching, withCaching, hforget]
    rfl
  obtain ⟨hcached, hwithout, hsound⟩ := hstart.servesAll hr
  refine ⟨hcached, ?_, fun m hm => ?_, hsound.watched.store.finds⟩
  · rw [← hplain]
    exact hwithout
  · obtain ⟨hhere, hmade, hstore⟩ := hsound.watched.moments m hm
    exact ⟨hhere, hmade, hstore.finds⟩

/-- A session whose only global is a native. -/
def collecting : Session :=
  ⟨.standard, Machine.collecting (some 2), .standard, .ofGlobals Machine.tupleGlobals⟩

theorem tupleGlobals_builtFrom : Machine.tupleGlobals.BuiltFrom (fun _ => False) fun _ => True := by
  intro a v hv
  obtain ⟨cell, hcell, hvalue⟩ := Option.bind_eq_some_iff.mp hv
  obtain rfl : cell = ("tuple", some (.native (.host 0 "tuple" .any))) :=
    List.mem_singleton.mp (Array.mem_toList_iff.mpr (Array.mem_of_getElem? hcell))
  cases hvalue
  trivial

/-- A procedure that reads a global is called after the global has been defined, and the unit that
made it runs twice. -/
theorem cachesSilently_laterDefinition : ∃ p c,
    Program.ofText .standard .standard 0 "unit" "(define (f) y)" = .ok p ∧
      let requests : List Request := [.execute p.template, .define "y" (.integer 2),
        .apply (.closure c) [], .execute p.template]
      (WatchedSession.start (collecting.withCaching true)).Allows (fun _ => True) requests ∧
        collecting.CachesSilently (fun _ => True) requests := by
  have hmade : ((Program.ofText .standard .standard 0 "unit" "(define (f) y)").toOption.bind
      fun p => ((WatchedSession.start (collecting.withCaching true)).serve
        (.execute p.template)).2.made[1]?).isSome := by decide +kernel
  obtain ⟨c, hmade⟩ := Option.isSome_iff_exists.mp hmade
  obtain ⟨p, hp, hc⟩ := Option.bind_eq_some_iff.mp hmade
  have hallows : (WatchedSession.start (collecting.withCaching true)).Allows (fun _ => True)
      [.execute p.template, .define "y" (.integer 2), .apply (.closure c) [],
        .execute p.template] :=
    ⟨trivial, trivial, ⟨List.mem_of_getElem? hc, by simp⟩, trivial, trivial⟩
  exact ⟨p, c, ok_of_toOption hp, hallows, cachesSilently rfl tupleGlobals_builtFrom
    (Machine.collecting_trusted _) hallows⟩

end Session

end RegisterScheme
