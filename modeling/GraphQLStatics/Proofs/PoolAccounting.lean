import Mathlib.Data.List.Perm.Basic
import GraphQLStatics.Proofs.PoolIsolation

/-!
# The account of a pool

Workspaces are taken from a pool, written to and given back, in any order and
for any length of time.  A pool that is empty makes new ones, and a pool that is
full drops what is given back, so the workspaces come and go.  A `Ledger` keeps
the account: every workspace has a number, given to it when it was made, and the
ledger notes which ones wait, which ones are out, and what was handed out and
given back so far.

The numbers are only a view.  What the pool does is what `Pool.acquire`,
`Pool.release` and `Validator.validate` do to it.

## Main Definitions

* `Numbered`, `HandOut`, `Ledger`
* `Ledger.Action`, `Ledger.step`, `Ledger.run`
* `Ledger.Sound`: what every action keeps up
* `Ledger.Balanced`: the account of a run

## Main Statements

* `Ledger.Sound.step`, `Ledger.Sound.run`
* `balanced_run_opened`: the account of every run balances
-/

namespace GraphQLStatics

/-- A workspace and the number that it was given when it was made. -/
structure Numbered where
  number : Nat
  workspace : Workspace

/-- A workspace as it was when it was handed out, and how often it had been
given back by then. -/
structure HandOut where
  number : Nat
  workspace : Workspace
  returns : Nat

/-- A pool with the account of its workspaces. -/
structure Ledger where
  pool : Pool
  /-- The numbers of the workspaces that wait in the pool, in their order. -/
  waiting : List Nat
  /-- The workspaces that were handed out and not yet given back. -/
  held : List Numbered
  /-- The number of workspaces made so far, and the number of the next one. -/
  made : Nat
  /-- What was handed out, latest first. -/
  handOuts : List HandOut
  /-- The numbers of the workspaces that were given back, latest first. -/
  returns : List Nat

namespace Ledger

/-! ### What can be done -/

/-- The account of a new pool. -/
def opened (capacity : Nat) : Ledger where
  pool := .filled capacity
  waiting := List.range capacity
  held := []
  made := capacity
  handOuts := []
  returns := []

/-- Hand out a workspace.  One that is made for it has the next number. -/
def takeOut (l : Ledger) : Numbered × Ledger :=
  let (workspace, pool) := l.pool.acquire
  let (number, made) := match l.waiting with
    | [] => (l.made, l.made + 1)
    | number :: _ => (number, l.made)
  (⟨number, workspace⟩,
    { l with
      pool
      waiting := l.waiting.tail
      made
      handOuts := ⟨number, workspace, l.returns.count number⟩ :: l.handOuts })

/-- Give a workspace back.  It waits again, unless enough of them wait. -/
def putBack (l : Ledger) (x : Numbered) : Ledger :=
  { l with
    pool := l.pool.release x.workspace
    waiting := if l.pool.idle.length < l.pool.capacity then x.number :: l.waiting else l.waiting
    returns := x.number :: l.returns }

/-- What can be done with a pool and with the workspaces that are out. -/
inductive Action where
  /-- Take a workspace, on loan or not. -/
  | take
  /-- Write anything to a workspace that is out.  Its generation cannot be
  written to. -/
  | write (index : Nat) (contents : Workspace)
  /-- Give back a workspace that is out, or end its loan. -/
  | giveBack (index : Nat)
  /-- Check a document with the pool. -/
  | validate (rules : List Rule) (schema : Schema) (doc : Document)

/-- Do one thing.  A place where nothing is held is passed over. -/
def step (l : Ledger) : Action → Ledger
  | .take =>
    let (x, taken) := l.takeOut
    { taken with held := x :: taken.held }
  | .write index contents =>
    match l.held[index]? with
    | none => l
    | some x =>
      let workspace := { contents with generation := x.workspace.generation }
      { l with held := l.held.set index ⟨x.number, workspace⟩ }
  | .giveBack index =>
    match l.held[index]? with
    | none => l
    | some x => { l with held := l.held.eraseIdx index }.putBack x
  | .validate rules schema doc =>
    let (x, taken) := l.takeOut
    { taken.putBack x with pool := ((Validator.mk l.pool rules).validate schema doc).2.pool }

/-- Do one thing after another. -/
def run (l : Ledger) (actions : List Action) : Ledger :=
  actions.foldl step l

/-! ### The account -/

/-- The workspaces that wait, with their numbers. -/
def idle (l : Ledger) : List Numbered :=
  List.zipWith Numbered.mk l.waiting l.pool.idle

/-- The workspaces that wait and those that are out. -/
def live (l : Ledger) : List Numbered :=
  l.idle ++ l.held

/-- How often a workspace was given back. -/
def returnsOf (l : Ledger) (number : Nat) : Nat :=
  l.returns.count number

/-- The account of a pool with the given capacity balances. -/
structure Balanced (capacity : Nat) (l : Ledger) : Prop where
  /-- Every workspace that waits has a number. -/
  numbered : l.waiting.length = l.pool.idle.length
  /-- No more workspaces wait than the pool has room for. -/
  idle_le : l.pool.idle.length ≤ capacity
  /-- Whatever waits is clean. -/
  idle_clean : ∀ w ∈ l.pool.idle, w.isClean = true
  /-- Whatever was handed out was clean. -/
  handed_clean : ∀ h ∈ l.handOuts, h.workspace.isClean = true
  /-- The pool does not shrink for good. -/
  enough : capacity ≤ l.pool.idle.length + l.held.length
  /-- If nothing is out, the pool is full. -/
  full : l.held = [] → l.pool.idle.length = capacity
  /-- The generation of a workspace is the number of its returns. -/
  generation : ∀ x ∈ l.live, x.workspace.generation = UInt64.ofNat (l.returnsOf x.number)
  /-- Of two hand-outs of one workspace the later has the larger generation, as
  long as the generation has not wrapped around. -/
  reuse : l.handOuts.Pairwise fun later earlier =>
    later.number = earlier.number → l.returnsOf later.number < UInt64.size →
      earlier.workspace.generation < later.workspace.generation

/-! ### Workspaces that wait -/

theorem mem_idle {l : Ledger} {x : Numbered} (mem : x ∈ l.idle) :
    x.number ∈ l.waiting ∧ x.workspace ∈ l.pool.idle := by
  obtain ⟨i, bound, rfl⟩ := List.getElem_of_mem mem
  simp [idle]

theorem map_number_live {l : Ledger} (numbered : l.waiting.length = l.pool.idle.length) :
    l.live.map Numbered.number = l.waiting ++ l.held.map Numbered.number := by
  have waiting : l.idle.map Numbered.number = l.waiting := by
    refine List.ext_getElem ?_ ?_
    · simp [idle, numbered]
    · simp [idle]
  rw [live, List.map_append, waiting]

/-! ### Numbers, generations and hand-outs -/

/-- A hand-out fits what was given back: the workspace was clean, its generation
is the number of its returns until then, and it was given back since if it
waits. -/
structure Records (waiting : List Nat) (made : Nat) (returns : List Nat) (h : HandOut) :
    Prop where
  number_lt : h.number < made
  clean : h.workspace.isClean = true
  generation : h.workspace.generation = UInt64.ofNat h.returns
  returns_le : h.returns ≤ returns.count h.number
  returned : h.number ∈ waiting → h.returns < returns.count h.number

/-- The live workspaces, the numbers of those that wait, the hand-outs and the
returns fit together. -/
structure Traced (live : List Numbered) (waiting : List Nat) (made : Nat)
    (handOuts : List HandOut) (returns : List Nat) : Prop where
  nodup : (live.map Numbered.number).Nodup
  number_lt : ∀ x ∈ live, x.number < made
  returns_lt : ∀ number ∈ returns, number < made
  generation : ∀ x ∈ live, x.workspace.generation = UInt64.ofNat (returns.count x.number)
  records : ∀ h ∈ handOuts, Records waiting made returns h
  increasing : handOuts.Pairwise fun later earlier =>
    later.number = earlier.number → earlier.returns < later.returns

namespace Traced

variable {live live' : List Numbered} {waiting waiting' : List Nat} {made : Nat}
  {handOuts : List HandOut} {returns : List Nat} {x : Numbered}

theorem perm (traced : Traced live waiting made handOuts returns) (same : live'.Perm live) :
    Traced live' waiting made handOuts returns where
  nodup := (same.map _).nodup_iff.mpr traced.nodup
  number_lt := fun x mem => traced.number_lt x (same.mem_iff.mp mem)
  returns_lt := traced.returns_lt
  generation := fun x mem => traced.generation x (same.mem_iff.mp mem)
  records := traced.records
  increasing := traced.increasing

/-- A workspace is dropped. -/
theorem drop (traced : Traced (x :: live) (x.number :: waiting) made handOuts returns) :
    Traced live waiting made handOuts returns where
  nodup := (List.nodup_cons.mp traced.nodup).2
  number_lt := fun y mem => traced.number_lt y (.tail x mem)
  returns_lt := traced.returns_lt
  generation := fun y mem => traced.generation y (.tail x mem)
  records := fun h mem =>
    { traced.records h mem with
      returned := fun waits => (traced.records h mem).returned (.tail _ waits) }
  increasing := traced.increasing

/-- A workspace is made. -/
theorem make (traced : Traced live waiting made handOuts returns) :
    Traced (⟨made, .fresh⟩ :: live) waiting (made + 1) handOuts returns where
  nodup := by
    refine List.nodup_cons.mpr ⟨?_, traced.nodup⟩
    intro mem
    obtain ⟨x, mem', same⟩ := List.mem_map.mp mem
    exact Nat.lt_irrefl _ (same ▸ traced.number_lt x mem')
  number_lt := by
    intro x mem
    obtain rfl | old := List.mem_cons.mp mem
    · exact Nat.lt_succ_self made
    · exact (traced.number_lt x old).trans (Nat.lt_succ_self made)
  returns_lt := fun n mem => (traced.returns_lt n mem).trans (Nat.lt_succ_self made)
  generation := by
    intro x mem
    obtain rfl | old := List.mem_cons.mp mem
    · have unreturned : returns.count made = 0 :=
        List.count_eq_zero.mpr fun mem => Nat.lt_irrefl _ (traced.returns_lt made mem)
      rw [unreturned]
      rfl
    · exact traced.generation x old
  records := fun h mem =>
    { traced.records h mem with
      number_lt := (traced.records h mem).number_lt.trans (Nat.lt_succ_self made) }
  increasing := traced.increasing

/-- A workspace is handed out, and does not wait any more. -/
theorem handOut (traced : Traced (x :: live) waiting made handOuts returns)
    (clean : x.workspace.isClean = true)
    (returned : ∀ h ∈ handOuts, x.number = h.number → h.returns < returns.count x.number)
    (fewer : ∀ number ∈ waiting', number ∈ waiting) (gone : x.number ∉ waiting') :
    Traced (x :: live) waiting' made
      (⟨x.number, x.workspace, returns.count x.number⟩ :: handOuts) returns where
  nodup := traced.nodup
  number_lt := traced.number_lt
  returns_lt := traced.returns_lt
  generation := traced.generation
  records := by
    intro h mem
    obtain rfl | old := List.mem_cons.mp mem
    · exact {
        number_lt := traced.number_lt x (.head live)
        clean := clean
        generation := traced.generation x (.head live)
        returns_le := Nat.le_refl _
        returned := fun waits => absurd waits gone }
    · exact { traced.records h old with
        returned := fun waits => (traced.records h old).returned (fewer _ waits) }
  increasing := List.pairwise_cons.mpr ⟨returned, traced.increasing⟩

/-- A workspace is written to. -/
theorem write (traced : Traced (x :: live) waiting made handOuts returns) (contents : Workspace) :
    Traced (⟨x.number, { contents with generation := x.workspace.generation }⟩ :: live)
      waiting made handOuts returns where
  nodup := traced.nodup
  number_lt := by
    intro y mem
    obtain rfl | other := List.mem_cons.mp mem
    · exact traced.number_lt x (.head live)
    · exact traced.number_lt y (.tail x other)
  returns_lt := traced.returns_lt
  generation := by
    intro y mem
    obtain rfl | other := List.mem_cons.mp mem
    · exact traced.generation x (.head live)
    · exact traced.generation y (.tail x other)
  records := traced.records
  increasing := traced.increasing

/-- A workspace is given back, which counts its generation up, and waits
again. -/
theorem putBack (traced : Traced (x :: live) waiting made handOuts returns) :
    Traced (⟨x.number, x.workspace.reset⟩ :: live) (x.number :: waiting) made handOuts
      (x.number :: returns) where
  nodup := traced.nodup
  number_lt := by
    intro y mem
    obtain rfl | other := List.mem_cons.mp mem
    · exact traced.number_lt x (.head live)
    · exact traced.number_lt y (.tail x other)
  returns_lt := by
    intro n mem
    obtain rfl | old := List.mem_cons.mp mem
    · exact traced.number_lt x (.head live)
    · exact traced.returns_lt n old
  generation := by
    intro y mem
    obtain rfl | other := List.mem_cons.mp mem
    · change x.workspace.generation + 1 = _
      rw [traced.generation x (.head live), List.count_cons_self, UInt64.ofNat_add]
      rfl
    · -- The numbers are distinct, so that nothing changes for the others.
      have different : x.number ≠ y.number := by
        intro same
        have first := (List.nodup_cons.mp traced.nodup).1
        exact first (List.mem_map.mpr ⟨y, other, same.symm⟩)
      rw [List.count_cons_of_ne different]
      exact traced.generation y (.tail x other)
  records := by
    intro h mem
    have old := traced.records h mem
    have more : returns.count h.number ≤ (x.number :: returns).count h.number :=
      List.count_le_count_cons
    refine { old with returns_le := old.returns_le.trans more, returned := ?_ }
    intro waits
    by_cases same : h.number = x.number
    · rw [same, List.count_cons_self, ← same]
      exact Nat.lt_succ_of_le old.returns_le
    · have waits' : h.number ∈ waiting := (List.mem_cons.mp waits).resolve_left same
      exact (old.returned waits').trans_le more
  increasing := traced.increasing

end Traced

/-! ### What every action keeps up -/

/-- What every action keeps up. -/
structure Sound (capacity : Nat) (l : Ledger) : Prop where
  capacity_eq : l.pool.capacity = capacity
  numbered : l.waiting.length = l.pool.idle.length
  idle_le : l.pool.idle.length ≤ capacity
  enough : capacity ≤ l.pool.idle.length + l.held.length
  clean : l.pool.Clean
  traced : Traced l.live l.waiting l.made l.handOuts l.returns

theorem sound_opened (capacity : Nat) : (opened capacity).Sound capacity := by
  have numbered : (opened capacity).waiting.length = (opened capacity).pool.idle.length := by
    simp [opened, Pool.filled]
  have mem_live : ∀ x ∈ (opened capacity).live,
      x.number < capacity ∧ x.workspace = Workspace.fresh := by
    intro x mem
    have mem' : x ∈ (opened capacity).idle := by simpa [live, opened] using mem
    obtain ⟨number, workspace⟩ := mem_idle mem'
    exact ⟨List.mem_range.mp number, List.eq_of_mem_replicate workspace⟩
  refine ⟨rfl, numbered, by simp [opened, Pool.filled], by simp [opened, Pool.filled],
    Pool.clean_filled capacity, ?_⟩
  refine ⟨?_, fun x mem => (mem_live x mem).1, by simp [opened], ?_, by simp [opened], .nil⟩
  · rw [map_number_live numbered]
    simpa [opened] using List.nodup_range
  · intro x mem
    rw [(mem_live x mem).2]
    rfl

/-- A workspace that is handed out was made for it, or is the one that was given
back last. -/
theorem step_take {l : Ledger} (numbered : l.waiting.length = l.pool.idle.length) :
    (l.pool.idle = [] ∧ l.waiting = [] ∧
      l.step .take =
        { l with
          held := ⟨l.made, .fresh⟩ :: l.held
          made := l.made + 1
          handOuts := ⟨l.made, .fresh, l.returnsOf l.made⟩ :: l.handOuts }) ∨
    ∃ number waiting w rest, l.waiting = number :: waiting ∧ l.pool.idle = w :: rest ∧
      l.step .take =
        { l with
          pool := { l.pool with idle := rest }
          waiting := waiting
          held := ⟨number, w⟩ :: l.held
          handOuts := ⟨number, w, l.returnsOf number⟩ :: l.handOuts } := by
  cases waits : l.waiting with
  | nil =>
      have idle : l.pool.idle = [] := by
        rw [waits] at numbered
        exact List.eq_nil_of_length_eq_zero numbered.symm
      refine .inl ⟨idle, rfl, ?_⟩
      simp [step, takeOut, Pool.acquire, idle, waits, returnsOf]
  | cons number waiting =>
      cases idle : l.pool.idle with
      | nil => simp [waits, idle] at numbered
      | cons w rest =>
          refine .inr ⟨number, waiting, w, rest, rfl, rfl, ?_⟩
          simp [step, takeOut, Pool.acquire, idle, waits, returnsOf]

namespace Sound

variable {capacity : Nat} {l : Ledger}

theorem take (sound : l.Sound capacity) : (l.step .take).Sound capacity := by
  obtain ⟨capacity_eq, numbered, idle_le, enough, clean, traced⟩ := sound
  obtain ⟨idle, waits, eq⟩ | ⟨number, waiting, w, rest, waits, idle, eq⟩ := step_take numbered
  · rw [eq]
    refine ⟨capacity_eq, numbered, idle_le, ?_, clean, ?_⟩
    · simp only [List.length_cons]
      omega
    · -- A new number is unknown to the hand-outs.
      have unknown : ∀ h ∈ l.handOuts, l.made = h.number → h.returns < l.returnsOf l.made :=
        fun h mem same => absurd (traced.records h mem).number_lt (by omega)
      have unwaited : l.made ∉ l.waiting := by simp [waits]
      have traced' := traced.make.handOut Workspace.isClean_fresh unknown
        (fun _ mem => mem) unwaited
      exact traced'.perm List.perm_middle
  · have distinct : (number :: waiting).Nodup := by
      have nodup := traced.nodup
      rw [map_number_live numbered, waits] at nodup
      exact (List.nodup_append.mp nodup).1
    have live_eq : l.live = ⟨number, w⟩ :: (List.zipWith Numbered.mk waiting rest ++ l.held) := by
      simp [live, Ledger.idle, idle, waits]
    rw [live_eq] at traced
    rw [waits, idle] at numbered
    rw [idle] at idle_le enough
    simp only [List.length_cons] at numbered idle_le enough
    rw [eq]
    refine ⟨capacity_eq, ?_, ?_, ?_, ?_, ?_⟩
    · exact Nat.succ_injective numbered
    · exact Nat.le_of_succ_le idle_le
    · simp only [List.length_cons]
      omega
    · intro other mem
      exact clean other (by simp [idle, mem])
    · have returned : ∀ h ∈ l.handOuts, number = h.number → h.returns < l.returnsOf number := by
        rintro h mem rfl
        exact (traced.records h mem).returned (by simp [waits])
      have traced' := traced.handOut (clean w (by simp [idle])) returned
        (fun n (mem : n ∈ waiting) => by simp [waits, mem]) (List.nodup_cons.mp distinct).1
      exact traced'.perm List.perm_middle

/-- What is held at a place comes first in some order of the live workspaces. -/
theorem live_perm {x : Numbered} {index : Nat} (found : l.held[index]? = some x) :
    l.live.Perm (x :: (l.idle ++ l.held.eraseIdx index)) := by
  obtain ⟨bound, rfl⟩ := List.getElem?_eq_some_iff.mp found
  have first := (List.getElem_cons_eraseIdx_perm bound).symm
  exact (first.append_left l.idle).trans List.perm_middle

theorem write (sound : l.Sound capacity) (index : Nat) (contents : Workspace) :
    (l.step (.write index contents)).Sound capacity := by
  cases found : l.held[index]? with
  | none => simpa [Ledger.step, found] using sound
  | some x =>
      obtain ⟨capacity_eq, numbered, idle_le, enough, clean, traced⟩ := sound
      have bound := (List.getElem?_eq_some_iff.mp found).1
      simp only [Ledger.step, found]
      refine ⟨capacity_eq, numbered, idle_le, by simpa using enough, clean, ?_⟩
      have traced' := (traced.perm (live_perm found).symm).write contents
      have first := List.set_perm_cons_eraseIdx bound
        ⟨x.number, { contents with generation := x.workspace.generation }⟩
      exact traced'.perm ((first.append_left l.idle).trans List.perm_middle)

theorem giveBack (sound : l.Sound capacity) (index : Nat) :
    (l.step (.giveBack index)).Sound capacity := by
  cases found : l.held[index]? with
  | none => simpa [Ledger.step, found] using sound
  | some x =>
      obtain ⟨capacity_eq, numbered, idle_le, enough, clean, traced⟩ := sound
      have bound := (List.getElem?_eq_some_iff.mp found).1
      have shorter := List.length_eraseIdx_add_one bound
      have clean' := clean.release x.workspace
      have traced' := (traced.perm (live_perm found).symm).putBack
      simp only [Ledger.step, found, Ledger.putBack]
      simp only [Pool.release] at clean' ⊢
      by_cases room : l.pool.idle.length < l.pool.capacity
      · simp only [room, if_true] at clean' ⊢
        refine ⟨capacity_eq, ?_, ?_, ?_, clean', traced'⟩
        · simpa using numbered
        · simp only [List.length_cons]
          omega
        · simp only [List.length_cons]
          omega
      · -- a full pool drops the workspace, and is still full
        simp only [room, if_false] at clean' ⊢
        exact ⟨capacity_eq, numbered, idle_le, by simp only; omega, clean', traced'.drop⟩

end Sound

/-- A check takes a workspace, writes to it and gives it back. -/
theorem step_validate (l : Ledger) (rules : List Rule) (schema : Schema) (doc : Document) :
    ∃ contents, l.step (.validate rules schema doc) =
      ((l.step .take).step (.write 0 contents)).step (.giveBack 0) := by
  let w := l.takeOut.1.workspace.bindTo doc
  let checked := Validator.runRules schema doc rules w
  have same : checked.generation = w.generation :=
    (Validator.runRules_adds schema rules (Workspace.boundTo_bindTo _ doc)).generation
  refine ⟨{ checked with violations := [] }, ?_⟩
  -- The rules do not touch the generation, so that what they leave can be written.
  have written : { checked with violations := [], generation := w.generation } =
      { checked with violations := [] } := by
    rw [← same]
  change _ = Ledger.putBack l.takeOut.2
    ⟨l.takeOut.1.number, { checked with violations := [], generation := w.generation }⟩
  rw [written]
  rfl

theorem Sound.step {capacity : Nat} {l : Ledger} (sound : l.Sound capacity) (action : Action) :
    (l.step action).Sound capacity := by
  cases action with
  | take => exact sound.take
  | write index contents => exact sound.write index contents
  | giveBack index => exact sound.giveBack index
  | validate rules schema doc =>
      obtain ⟨contents, eq⟩ := l.step_validate rules schema doc
      rw [eq]
      exact (sound.take.write 0 contents).giveBack 0

theorem Sound.run {capacity : Nat} {l : Ledger} (sound : l.Sound capacity)
    (actions : List Action) : (l.run actions).Sound capacity := by
  induction actions generalizing l with
  | nil => exact sound
  | cons action rest ih => exact ih (sound.step action)

theorem Sound.balanced {capacity : Nat} {l : Ledger} (sound : l.Sound capacity) :
    l.Balanced capacity where
  numbered := sound.numbered
  idle_le := sound.idle_le
  idle_clean := sound.clean
  handed_clean := fun h mem => (sound.traced.records h mem).clean
  enough := sound.enough
  full := by
    intro none
    have enough := sound.enough
    rw [none, List.length_nil, Nat.add_zero] at enough
    exact Nat.le_antisymm sound.idle_le enough
  generation := sound.traced.generation
  reuse := by
    refine sound.traced.increasing.imp_of_mem ?_
    intro later earlier laterMem earlierMem grows same unwrapped
    have laterRecord := sound.traced.records later laterMem
    have earlierRecord := sound.traced.records earlier earlierMem
    have less : earlier.returns < later.returns := grows same
    have bound : later.returns < UInt64.size := laterRecord.returns_le.trans_lt unwrapped
    rw [laterRecord.generation, earlierRecord.generation, UInt64.lt_iff_toNat_lt,
      UInt64.toNat_ofNat', UInt64.toNat_ofNat', Nat.mod_eq_of_lt bound,
      Nat.mod_eq_of_lt (less.trans bound)]
    exact less

end Ledger

/-- **The account of a pool.**  Whatever is done with a pool of some capacity
and with the workspaces taken from it, in whatever order: no more than its
capacity wait, what waits and what is handed out is clean, the pool is full
whenever nothing is out, and the generation of a workspace counts its returns,
so that it is larger at every use than at the uses before. -/
theorem balanced_run_opened (capacity : Nat) (actions : List Ledger.Action) :
    ((Ledger.opened capacity).run actions).Balanced capacity :=
  ((Ledger.sound_opened capacity).run actions).balanced

end GraphQLStatics
