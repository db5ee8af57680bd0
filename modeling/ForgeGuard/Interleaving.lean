import Mathlib.Logic.Function.Basic
import Mathlib.Data.List.Basic

/-! Clients of a shared store, interleaved one request at a time.

A client is a sequential program that asks the store requests and returns. The store serves one
request at a time, so a run is a list of labels: which client starts which call, and which client's
pending request is served next. -/

namespace ForgeGuard.Interleaving
open Function List

/-- A shared store. `Choice` is what the environment decides about one request, for instance
whether it fails or how much of an answer is delivered at once. -/
structure Service where
  Store : Type
  Request : Type
  Reply : Request → Type
  Choice : Type
  serve : Store → (q : Request) → Choice → Store × Reply q

/-- A sequential client program. -/
inductive Prog (S : Service) (α : Type) where
  | ret (a : α)
  | ask (q : S.Request) (k : S.Reply q → Prog S α)

open Prog

variable {S : Service} {C α β ε : Type}

def Prog.bind : Prog S α → (α → Prog S β) → Prog S β
  | .ret a, f => f a
  | .ask q k, f => .ask q (fun r => (k r).bind f)

instance : Monad (Prog S) where
  pure := .ret
  bind := bind

def Prog.request (q : S.Request) : Prog S (S.Reply q) := .ask q .ret

@[simp] theorem Prog.pure_eq (a : α) : (pure a : Prog S α) = .ret a := rfl

@[simp] theorem Prog.ret_bind (a : α) (f : α → Prog S β) : ret a >>= f = f a := rfl

@[simp] theorem Prog.ask_bind (q : S.Request) (k : S.Reply q → Prog S α) (f : α → Prog S β) :
    ask q k >>= f = .ask q (fun r => k r >>= f) := rfl

@[simp] theorem Prog.request_bind (q : S.Request) (f : S.Reply q → Prog S β) : request q >>= f = .ask q f := rfl

theorem Prog.run_lift_request_bind (q : S.Request) (f : S.Reply q → ExceptT ε (Prog S) β) :
    (ExceptT.lift (request q) >>= f).run = .ask q fun r => (f r).run := rfl

theorem Prog.run_liftM_ok_bind (a : α) (f : α → ExceptT ε (Prog S) β) :
    ((liftM (Except.ok a : Except ε α) : ExceptT ε (Prog S) α) >>= f).run = (f a).run := rfl

/-- One served request, with the store on both sides of it. -/
structure Visit (S : Service) where
  before : S.Store
  request : S.Request
  reply : S.Reply request
  after : S.Store

def visit (s : S.Store) (q : S.Request) (c : S.Choice) : Visit S :=
  { before := s, request := q, reply := (S.serve s q c).2, after := (S.serve s q c).1 }

/-- What a client has seen: the store when its call began and its visits, the newest first. -/
structure History (S : Service) where
  began : S.Store
  visits : List (Visit S)

def History.latest (h : History S) : S.Store :=
  match h.visits with
  | [] => h.began
  | v :: _ => v.after

def History.add (h : History S) (v : Visit S) : History S :=
  { h with visits := v :: h.visits }

@[simp] theorem History.latest_nil (s : S.Store) : (History.mk s [] : History S).latest = s := rfl

@[simp] theorem History.latest_add (h : History S) (v : Visit S) : (h.add v).latest = v.after := rfl

@[simp] theorem History.began_add (h : History S) (v : Visit S) : (h.add v).began = h.began := rfl

@[simp] theorem History.visits_add (h : History S) (v : Visit S) : (h.add v).visits = v :: h.visits := rfl

/-- `h'` continues `h` with visits that satisfy `P`. -/
def History.Extends (P : Visit S → Prop) (h h' : History S) : Prop :=
  h'.began = h.began ∧ ∃ vs, h'.visits = vs ++ h.visits ∧ ∀ v ∈ vs, P v

variable {P : Visit S → Prop}

theorem History.Extends.refl (h : History S) : h.Extends P h :=
  ⟨rfl, [], rfl, by simp⟩

theorem History.Extends.add {h h' : History S} (hx : h.Extends P h')
    {v : Visit S} (hv : P v) : h.Extends P (h'.add v) := by
  obtain ⟨hb, vs, hvs, hall⟩ := hx
  exact ⟨hb, v :: vs, by simp [hvs], forall_mem_cons.mpr ⟨hv, hall⟩⟩

theorem History.Extends.trans {h h' h'' : History S} (hx : h.Extends P h')
    (hx' : h'.Extends P h'') : h.Extends P h'' := by
  obtain ⟨hb, vs, hvs, hall⟩ := hx
  obtain ⟨hb', ws, hws, hall'⟩ := hx'
  exact ⟨hb'.trans hb, ws ++ vs, by simp [hws, hvs], forall_mem_append.mpr ⟨hall', hall⟩⟩

theorem History.Extends.mono {P' : Visit S → Prop} {h h' : History S} (hx : h.Extends P h')
    (hP : ∀ v, P v → P' v) : h.Extends P' h' := by
  obtain ⟨hb, vs, hvs, hall⟩ := hx
  exact ⟨hb, vs, hvs, fun v hv => hP v (hall v hv)⟩

structure Client (S : Service) (C α : Type) where
  call : C
  history : History S
  prog : Prog S α

structure Config (S : Service) (C α : Type) where
  store : S.Store
  clients : Nat → Option (Client S C α)

open Config

def Config.initial (C α : Type) (s : S.Store) : Config S C α :=
  { store := s, clients := fun _ => none }

inductive Label (S : Service) (C : Type) where
  | start (i : Nat) (call : C)
  | step (i : Nat) (choice : S.Choice)

/-- A label that is not enabled (a client started twice, a step of a finished client) changes
nothing. -/
def Config.next (impl : C → Prog S α) (cfg : Config S C α) : Label S C → Config S C α
  | .start i call =>
    match cfg.clients i with
    | none =>
      { cfg with
        clients := update cfg.clients i (some ⟨call, ⟨cfg.store, []⟩, impl call⟩) }
    | some _ => cfg
  | .step i choice =>
    match cfg.clients i with
    | some ⟨call, h, .ask q k⟩ =>
      { store := (visit cfg.store q choice).after
        clients := update cfg.clients i
          (some ⟨call, h.add (visit cfg.store q choice), k (visit cfg.store q choice).reply⟩) }
    | _ => cfg

def Config.run (impl : C → Prog S α) (cfg : Config S C α) (ls : List (Label S C)) : Config S C α :=
  ls.foldl (next impl) cfg

@[simp] theorem Config.run_nil (impl : C → Prog S α) (cfg : Config S C α) : cfg.run impl [] = cfg := rfl

@[simp] theorem Config.run_cons (impl : C → Prog S α) (cfg : Config S C α) (l : Label S C)
    (ls : List (Label S C)) : cfg.run impl (l :: ls) = (cfg.next impl l).run impl ls := rfl

def Config.moved (cfg : Config S C α) (i : Nat) (cl : Client S C α) (s : S.Store) : Config S C α :=
  { store := s, clients := update cfg.clients i (some cl) }

theorem Config.moved_self (cfg : Config S C α) (i : Nat) (cl : Client S C α) (s : S.Store) :
    (cfg.moved i cl s).clients i = some cl := update_self i _ _

theorem Config.next_cases (impl : C → Prog S α) (cfg : Config S C α) (l : Label S C) :
    cfg.next impl l = cfg ∨
    (∃ i call, l = .start i call ∧ cfg.clients i = none ∧
      cfg.next impl l = cfg.moved i ⟨call, ⟨cfg.store, []⟩, impl call⟩ cfg.store) ∨
    (∃ i choice call h q k, l = .step i choice ∧ cfg.clients i = some ⟨call, h, .ask q k⟩ ∧
      cfg.next impl l = cfg.moved i ⟨call, h.add (visit cfg.store q choice), k (visit cfg.store q choice).reply⟩
        (visit cfg.store q choice).after) := by
  cases l with
  | start i call =>
    cases hc : cfg.clients i with
    | none => exact .inr (.inl ⟨i, call, rfl, hc, by simp [next, moved, hc]⟩)
    | some cl => exact .inl (by simp [next, hc])
  | step i choice =>
    cases hc : cfg.clients i with
    | none => exact .inl (by simp [next, hc])
    | some cl =>
      obtain ⟨call, h, p⟩ := cl
      cases p with
      | ret a => exact .inl (by simp [next, hc])
      | ask q k =>
        exact .inr (.inr ⟨i, choice, call, h, q, k, rfl, hc, by simp [next, moved, hc]⟩)

def Config.Unreturned (cfg : Config S C α) (i : Nat) : Prop :=
  ∀ cl a, cfg.clients i = some cl → cl.prog ≠ .ret a

variable {impl : C → Prog S α} {cfg : Config S C α} {l : Label S C} {ls : List (Label S C)}
  {i : Nat}

theorem Config.next_client (impl : C → Prog S α) (l : Label S C) {cl : Client S C α}
    (hcl : cfg.clients i = some cl) : (cfg.next impl l).clients i = some cl ∨
      ∃ choice q k, cl.prog = .ask q k ∧ (cfg.next impl l).clients i = some ⟨cl.call,
        cl.history.add (visit cfg.store q choice), k (visit cfg.store q choice).reply⟩ := by
  rcases cfg.next_cases impl l with heq | ⟨j, call, rfl, hnone, heq⟩ | ⟨j, choice, call, h, q, k, rfl, hc, heq⟩
  · exact .inl (by rw [heq]; exact hcl)
  · have hne : i ≠ j := by
      rintro rfl
      cases hnone.symm.trans hcl
    exact .inl (by rw [heq]; exact (update_of_ne hne _ _).trans hcl)
  · by_cases hij : i = j
    · subst hij
      obtain rfl := Option.some.inj (hcl.symm.trans hc)
      exact .inr ⟨choice, q, k, rfl, by rw [heq]; exact cfg.moved_self i _ _⟩
    · exact .inl (by rw [heq]; exact (update_of_ne hij _ _).trans hcl)

theorem Config.Unreturned.of_next (h : (cfg.next impl l).Unreturned i) : cfg.Unreturned i := by
  intro cl a hcl hret
  rcases next_client impl l hcl with hkept | ⟨_, _, _, hask, _⟩
  · exact h cl a hkept hret
  · cases hret.symm.trans hask

theorem Config.run_unstarted (impl : C → Prog S α) (hls : ∀ call, .start i call ∉ ls)
    (hnone : cfg.clients i = none) : (cfg.run impl ls).clients i = none := by
  induction ls generalizing cfg with
  | nil => exact hnone
  | cons l ls ih =>
    refine ih (fun call hmem => hls call (mem_cons_of_mem _ hmem)) ?_
    rcases cfg.next_cases impl l with heq | ⟨j, call, rfl, _, heq⟩ | ⟨j, choice, call, h, q, k, rfl, hc, heq⟩
    · rw [heq]
      exact hnone
    · have hne : i ≠ j := fun hij => hls call (hij ▸ mem_cons_self)
      rw [heq]
      exact (update_of_ne hne _ _).trans hnone
    · have hne : i ≠ j := by
        rintro rfl
        rw [hnone] at hc
        cases hc
      rw [heq]
      exact (update_of_ne hne _ _).trans hnone

/-- Which calls may start and which requests may be served, as a condition on a run. -/
structure Guard (S : Service) (C : Type) where
  start : S.Store → C → Prop
  step : C → History S → Visit S → Prop

def Guard.free (S : Service) (C : Type) : Guard S C where
  start _ _ := True
  step _ _ _ := True

def Guard.Admits (g : Guard S C) (cfg : Config S C α) : Label S C → Prop
  | .start i call => cfg.clients i = none → g.start cfg.store call
  | .step i choice => ∀ call h q k, cfg.clients i = some ⟨call, h, .ask q k⟩ → g.step call h (visit cfg.store q choice)

def Guard.AdmitsRun (g : Guard S C) (impl : C → Prog S α) : Config S C α → List (Label S C) → Prop
  | _, [] => True
  | cfg, l :: ls => g.Admits cfg l ∧ g.AdmitsRun impl (cfg.next impl l) ls

instance (g : Guard S C) [∀ s call, Decidable (g.start s call)]
    [∀ call h v, Decidable (g.step call h v)] (cfg : Config S C α) (l : Label S C) : Decidable (g.Admits cfg l) :=
  match l with
  | .start i call =>
    decidable_of_iff ((cfg.clients i).isNone = true → g.start cfg.store call) <| by
      simp [Guard.Admits, Option.isNone_iff_eq_none]
  | .step i choice =>
    match hc : cfg.clients i with
    | some ⟨call, h, .ask q k⟩ =>
      decidable_of_iff (g.step call h (visit cfg.store q choice)) <| by
        refine ⟨fun hstep call' h' q' k' heq => ?_, fun hall => hall call h q k hc⟩
        rw [hc] at heq
        cases heq
        exact hstep
    | some ⟨call, h, .ret a⟩ => isTrue fun call' h' q' k' heq => by
        rw [hc] at heq
        cases heq
    | none => isTrue fun call' h' q' k' heq => by
        rw [hc] at heq
        cases heq

instance Guard.decidableAdmitsRun (g : Guard S C)
    [∀ s call, Decidable (g.start s call)] [∀ call h v, Decidable (g.step call h v)] (impl : C → Prog S α) :
    (cfg : Config S C α) → (ls : List (Label S C)) → Decidable (g.AdmitsRun impl cfg ls)
  | _, [] => isTrue trivial
  | cfg, l :: ls =>
    have := g.decidableAdmitsRun impl (cfg.next impl l) ls
    inferInstanceAs (Decidable (g.Admits cfg l ∧ g.AdmitsRun impl (cfg.next impl l) ls))

theorem Guard.free_admitsRun (impl : C → Prog S α) (cfg : Config S C α) (ls : List (Label S C)) :
    (Guard.free S C).AdmitsRun impl cfg ls := by
  induction ls generalizing cfg with
  | nil => trivial
  | cons l ls ih =>
    refine ⟨?_, ih _⟩
    cases l with
    | start i call => exact fun _ => trivial
    | step i choice => exact fun _ _ _ _ _ => trivial

theorem Config.run_induction {g : Guard S C} {P : Config S C α → Prop}
    (hstep : ∀ cfg l, P cfg → g.Admits cfg l → P (cfg.next impl l)) (h : P cfg)
    (hg : g.AdmitsRun impl cfg ls) : P (cfg.run impl ls) := by
  induction ls generalizing cfg with
  | nil => exact h
  | cons l ls ih => exact ih (hstep cfg l h hg.1) hg.2

/-- What a program asks and returns, whatever answers it gets: in the history `h` it asks only
requests that satisfy `A h`, and it ends only in results that satisfy `Q`. -/
def Prog.Asks (A : History S → S.Request → Prop) (Q : History S → α → Prop) : Prog S α → History S → Prop
  | .ret a, h => Q h a
  | .ask q k, h => A h q ∧ ∀ s c, (k (visit s q c).reply).Asks A Q (h.add (visit s q c))

section
variable {A : History S → S.Request → Prop} {h : History S}

variable {Q : History S → α → Prop}

theorem Prog.Asks.ask {q : S.Request} {k : S.Reply q → Prog S α} (hq : A h q)
    (hstep : ∀ s c s' r, S.serve s q c = (s', r) → (k r).Asks A Q (h.add ⟨s, q, r, s'⟩)) : (ask q k).Asks A Q h :=
  ⟨hq, fun s c => hstep s c _ _ rfl⟩

theorem Prog.Asks.bind {P : History S → α → Prop} {Q : History S → β → Prop} {p : Prog S α}
    {f : α → Prog S β} (hp : p.Asks A P h) (hf : ∀ h a, P h a → (f a).Asks A Q h) : (p >>= f).Asks A Q h := by
  induction p generalizing h with
  | ret a => exact hf h a hp
  | ask q k ih => exact ⟨hp.1, fun s c => ih _ (hp.2 s c)⟩

theorem Prog.Asks.mono {A' : History S → S.Request → Prop} {P : History S → α → Prop}
    {p : Prog S α} (hp : p.Asks A P h) (hA : ∀ h q, A h q → A' h q) (hPQ : ∀ h a, P h a → Q h a) : p.Asks A' Q h := by
  induction p generalizing h with
  | ret a => exact hPQ h a hp
  | ask q k ih => exact ⟨hA h q hp.1, fun s c => ih _ (hp.2 s c)⟩

theorem Prog.Asks.weaken {P : History S → α → Prop} {p : Prog S α} (hp : p.Asks A P h)
    (hPQ : ∀ h a, P h a → Q h a) : p.Asks A Q h :=
  hp.mono (fun _ _ hq => hq) hPQ

theorem Prog.Asks.along {V : Visit S → Prop} (hV : ∀ h q s c, A h q → V (visit s q c))
    {p : Prog S α} {h₀ : History S} (hp : p.Asks A Q h) (hx : h₀.Extends V h) :
    p.Asks (fun h' q => A h' q ∧ h₀.Extends V h') (fun h' a => Q h' a ∧ h₀.Extends V h') h := by
  induction p generalizing h with
  | ret a => exact ⟨hp, hx⟩
  | ask q k ih => exact ⟨⟨hp.1, hx⟩, fun s c => ih _ (hp.2 s c) (hx.add (hV h q s c hp.1))⟩

theorem Prog.Asks.extends {p : Prog S α} {h₀ : History S} (hp : p.Asks A Q h) (hx : h₀.Extends (fun _ => True) h) :
    p.Asks A (fun h' a => Q h' a ∧ h₀.Extends (fun _ => True) h') h :=
  (hp.along (fun _ _ _ _ _ => trivial) hx).mono (fun _ _ hq => hq.1) (fun _ _ ha => ha)

variable {P : History S → Except ε α → Prop} {p : ExceptT ε (Prog S) α} {f : α → ExceptT ε (Prog S) β}

theorem Prog.Asks.bindExcept {Q : History S → Except ε β → Prop} (hp : p.run.Asks A P h)
    (hok : ∀ h a, P h (.ok a) → (f a).run.Asks A Q h) (herr : ∀ h e, P h (.error e) → Q h (.error e)) :
    (p >>= f).run.Asks A Q h := by
  rw [ExceptT.run_bind]
  refine hp.bind fun h r hr => ?_
  cases r with
  | ok a => exact hok h a hr
  | error e => exact herr h e hr

theorem Prog.Asks.bindResult {P : History S → α → Prop} {Q : History S → Except ε β → Prop} {p : Prog S α}
    (hp : p.Asks A P h) (hf : ∀ h a, P h a → (f a).run.Asks A Q h) : (ExceptT.lift p >>= f).run.Asks A Q h := by
  induction p generalizing h with
  | ret a => exact hf h a hp
  | ask q k ih => exact ⟨hp.1, fun s c => ih _ (hp.2 s c)⟩

theorem Prog.Asks.bindLift {Q : History S → Except ε β → Prop}
    {x : Except ε α} (hok : ∀ a, x = .ok a → (f a).run.Asks A Q h) (herr : ∀ e, x = .error e → Q h (.error e)) :
    ((liftM x : ExceptT ε (Prog S) α) >>= f).run.Asks A Q h := by
  cases x with
  | ok a => exact hok a rfl
  | error e => exact herr e rfl

theorem Prog.Asks.adapt {ε' : Type} {Q : History S → Except ε' α → Prop} {f : ε → ε'} (hp : p.run.Asks A P h)
    (hok : ∀ h a, P h (.ok a) → Q h (.ok a)) (herr : ∀ h e, P h (.error e) → Q h (.error (f e))) :
    (ExceptT.adapt f p).run.Asks A Q h := by
  refine .bind hp fun h r hr => ?_
  cases r with
  | ok a => exact hok h a hr
  | error e => exact herr h e hr

-- where only the requests matter, and not what the program returns

theorem Prog.Asks.bindAny (hp : p.run.Asks A P h) (hok : ∀ h a, P h (.ok a) → (f a).run.Asks A (fun _ _ => True) h) :
    (p >>= f).run.Asks A (fun _ _ => True) h :=
  hp.bindExcept hok fun _ _ _ => trivial

theorem Prog.Asks.bindLiftAny {x : Except ε α} (hok : ∀ a, x = .ok a → (f a).run.Asks A (fun _ _ => True) h) :
    ((liftM x : ExceptT ε (Prog S) α) >>= f).run.Asks A (fun _ _ => True) h :=
  bindLift hok fun _ _ => trivial

theorem Prog.Asks.adaptAny {ε' : Type}
    {f : ε → ε'} (hp : p.run.Asks A P h) : (ExceptT.adapt f p).run.Asks A (fun _ _ => True) h :=
  hp.adapt (fun _ _ _ => trivial) fun _ _ _ => trivial

end

/-- Everything in a history lies in the past of the store `s`, in the sense of `R`. -/
structure History.Past {S : Service} (I : S.Store → Prop) (R : S.Store → S.Store → Prop)
    (h : History S) (s : S.Store) : Prop where
  began : R h.began s
  started : ∀ v ∈ h.visits, R h.began v.before
  visits : ∀ v ∈ h.visits, I v.before ∧ R v.before v.after ∧ R v.after s
  served : ∀ v ∈ h.visits, ∃ c, v = visit v.before v.request c

variable {I : S.Store → Prop} {R : S.Store → S.Store → Prop}

theorem History.Past.later {h : History S}
    {s t : S.Store} (htrans : ∀ s t u, R s t → R t u → R s u) (hp : h.Past I R s) (hst : R s t) : h.Past I R t := by
  refine ⟨htrans _ _ _ hp.began hst, hp.started, fun v hv => ?_, hp.served⟩
  obtain ⟨hi, hr, hpast⟩ := hp.visits v hv
  exact ⟨hi, hr, htrans _ _ _ hpast hst⟩

theorem History.Past.initial (hrefl : ∀ s, R s s) (s : S.Store) : (History.mk s [] : History S).Past I R s :=
  ⟨hrefl s, by simp, by simp, by simp⟩

theorem History.Past.visit {I : S.Store → Prop} {R : S.Store → S.Store → Prop} {h : History S}
    {s : S.Store} (hrefl : ∀ s, R s s) (htrans : ∀ s t u, R s t → R t u → R s u) (hp : h.Past I R s)
    (hi : I s) {q : S.Request} {c : S.Choice} (hr : R s (Interleaving.visit s q c).after) :
    (h.add (Interleaving.visit s q c)).Past I R (Interleaving.visit s q c).after := by
  have hlater := hp.later htrans hr
  exact ⟨hlater.began, forall_mem_cons.mpr ⟨hp.began, hp.started⟩,
    forall_mem_cons.mpr ⟨⟨hi, hr, hrefl _⟩, hlater.visits⟩, forall_mem_cons.mpr ⟨⟨c, rfl⟩, hp.served⟩⟩

/-- The invariant of interleaved clients: the store invariant, each client's program and history,
and that visits of different clients come one after the other. -/
structure Config.Inv {S : Service} {C α : Type} (I : S.Store → Prop) (R : S.Store → S.Store → Prop)
    (A : C → History S → S.Request → Prop) (Q : C → History S → α → Prop)
    (cfg : Config S C α) : Prop where
  store : I cfg.store
  past : ∀ i cl, cfg.clients i = some cl → cl.history.Past I R cfg.store
  ordered : ∀ i j cl cl', i ≠ j → cfg.clients i = some cl → cfg.clients j = some cl' →
    ∀ v ∈ cl.history.visits, ∀ w ∈ cl'.history.visits, R v.after w.before ∨ R w.after v.before
  asks : ∀ i cl, cfg.clients i = some cl → cl.prog.Asks (A cl.call) (Q cl.call) cl.history

section
variable {I : S.Store → Prop} {R : S.Store → S.Store → Prop}
  {A : C → History S → S.Request → Prop} {Q : C → History S → α → Prop}

theorem Config.Inv.initial {s : S.Store} (hi : I s) : (initial C α s).Inv I R A Q := by
  refine ⟨hi, ?_, ?_, ?_⟩ <;> intros <;> contradiction

theorem Config.Inv.result (hs : cfg.Inv I R A Q) {call : C} {h : History S} {a : α}
    (hc : cfg.clients i = some ⟨call, h, .ret a⟩) : Q call h a :=
  hs.asks i _ hc

theorem update_eq_some {f : Nat → Option α} {j : Nat} {a b : α}
    (h : update f i (some a) j = some b) : (j = i ∧ b = a) ∨ (j ≠ i ∧ f j = some b) := by
  by_cases hji : j = i
  · subst hji
    exact .inl ⟨rfl, by simpa using h.symm⟩
  · exact .inr ⟨hji, by simpa [hji] using h⟩

theorem Config.forall_moved {cl : Client S C α} {s : S.Store} {P : Nat → Client S C α → Prop} (hnew : P i cl)
    (hold : ∀ j cl, cfg.clients j = some cl → P j cl) : ∀ j cl', (cfg.moved i cl s).clients j = some cl' → P j cl' := by
  intro j cl' hj
  rcases update_eq_some hj with ⟨rfl, rfl⟩ | ⟨_, hj⟩
  · exact hnew
  · exact hold j cl' hj

theorem Config.Inv.start (hs : cfg.Inv I R A Q) (hrefl : ∀ s, R s s) (i : Nat) (call : C) (p : Prog S α)
    (hp : p.Asks (A call) (Q call) ⟨cfg.store, []⟩) :
    (cfg.moved i ⟨call, ⟨cfg.store, []⟩, p⟩ cfg.store).Inv I R A Q := by
  -- the new client has no visits yet
  refine ⟨hs.store, forall_moved (.initial hrefl _) hs.past, fun j j' cl cl' hne hj hj' => ?_, forall_moved hp hs.asks⟩
  rcases update_eq_some hj with ⟨rfl, rfl⟩ | ⟨_, hj⟩
  · simp
  · rcases update_eq_some hj' with ⟨rfl, rfl⟩ | ⟨_, hj'⟩
    · simp
    · exact hs.ordered j j' cl cl' hne hj hj'

theorem Config.Inv.step (hs : cfg.Inv I R A Q)
    (hrefl : ∀ s, R s s) (htrans : ∀ s t u, R s t → R t u → R s u) {choice : S.Choice} {call : C}
    {h : History S} {q : S.Request} {k : S.Reply q → Prog S α} (hc : cfg.clients i = some ⟨call, h, .ask q k⟩)
    (hinv : I (visit cfg.store q choice).after) (hguar : R cfg.store (visit cfg.store q choice).after) :
    (cfg.moved i ⟨call, h.add (visit cfg.store q choice), k (visit cfg.store q choice).reply⟩
    (visit cfg.store q choice).after).Inv I R A Q := by
  refine ⟨hinv, forall_moved ((hs.past i _ hc).visit hrefl htrans hs.store hguar)
    fun j cl hj => (hs.past j cl hj).later htrans hguar, fun j j' cl cl' hne hj hj' => ?_,
    forall_moved ((hs.asks i _ hc).2 cfg.store choice) hs.asks⟩
  -- the new visit comes after every visit of every other client
  rcases update_eq_some hj with ⟨rfl, rfl⟩ | ⟨_, hold⟩
  · rcases update_eq_some hj' with ⟨rfl, _⟩ | ⟨_, hold'⟩
    · exact absurd rfl hne
    · exact forall_mem_cons.mpr ⟨fun w hw => .inr ((hs.past j' cl' hold').visits w hw).2.2,
        hs.ordered j j' _ cl' hne hc hold'⟩
  · rcases update_eq_some hj' with ⟨rfl, rfl⟩ | ⟨_, hold'⟩
    · exact fun v hv => forall_mem_cons.mpr ⟨.inl ((hs.past j cl hold).visits v hv).2.2,
        hs.ordered j j' cl _ hne hold hc v hv⟩
    · exact hs.ordered j j' cl cl' hne hold hold'

variable {g : Guard S C} (hrefl : ∀ s, R s s) (htrans : ∀ s t u, R s t → R t u → R s u)
  (hstart : ∀ s call, g.start s call → (impl call).Asks (A call) (Q call) ⟨s, []⟩)
  (hreq : ∀ call h q s c, A call h q → I s → h.Past I R s → g.step call h (visit s q c) →
    I (visit s q c).after ∧ R s (visit s q c).after)
include hrefl htrans hstart hreq

/-- One label, from what one request does: a request that a client may ask, served in a state where
everything the client has seen lies in the past, keeps the invariant and moves the store along `R`. -/
theorem Config.Inv.next (hs : cfg.Inv I R A Q) (hl : g.Admits cfg l) : (cfg.next impl l).Inv I R A Q := by
  rcases cfg.next_cases impl l with heq | ⟨i, call, rfl, hnone, heq⟩ | ⟨i, choice, call, h, q, k, rfl, hc, heq⟩
  · rw [heq]; exact hs
  · rw [heq]; exact hs.start hrefl i call _ (hstart _ _ (hl hnone))
  · obtain ⟨hinv, hguar⟩ := hreq call h q cfg.store choice (hs.asks i _ hc).1 hs.store
      (hs.past i _ hc) (hl call h q k hc)
    rw [heq]; exact hs.step hrefl htrans hc hinv hguar

/-- What holds in every interleaving of clients. -/
theorem Config.run_inv (hs : cfg.Inv I R A Q) (hg : g.AdmitsRun impl cfg ls) : (cfg.run impl ls).Inv I R A Q :=
  run_induction (fun _ _ hs hl => hs.next hrefl htrans hstart hreq hl) hs hg

theorem Config.Inv.run_later (hs : cfg.Inv I R A Q) (hg : g.AdmitsRun impl cfg ls) :
    R cfg.store (cfg.run impl ls).store := by
  have hboth : (cfg.run impl ls).Inv I R A Q ∧ R cfg.store (cfg.run impl ls).store := by
    refine run_induction (P := fun cfg' => cfg'.Inv I R A Q ∧ R cfg.store cfg'.store)
      (fun cfg' l hs' hl => ⟨hs'.1.next hrefl htrans hstart hreq hl, ?_⟩) ⟨hs, hrefl _⟩ hg
    rcases cfg'.next_cases impl l with heq | ⟨i, call, rfl, _, heq⟩ | ⟨i, choice, call, h, q, k, rfl, hc, heq⟩
    · rw [heq]
      exact hs'.2
    · rw [heq]
      exact hs'.2
    · obtain ⟨_, hmoves⟩ := hreq call h q cfg'.store choice (hs'.1.asks i _ hc).1 hs'.1.store
        (hs'.1.past i _ hc) (hl call h q k hc)
      rw [heq]
      exact htrans _ _ _ hs'.2 hmoves
  exact hboth.2

/-- What the guard and the past of a client give for a visit when it is served holds of all visits, in
every run that the guard admits. -/
theorem Config.run_served {V : C → Visit S → Prop}
    (hvisit : ∀ call h q s c, A call h q → I s → h.Past I R s → g.step call h (visit s q c) → V call (visit s q c))
    {s₀ : S.Store} (hi : I s₀) (hg : g.AdmitsRun impl (initial C α s₀) ls) :
    ((initial C α s₀).run impl ls).Inv I R A Q ∧
      ∀ i cl, ((initial C α s₀).run impl ls).clients i = some cl → ∀ v ∈ cl.history.visits, V cl.call v := by
  refine run_induction (P := fun cfg : Config S C α => cfg.Inv I R A Q ∧
      ∀ i cl, cfg.clients i = some cl → ∀ v ∈ cl.history.visits, V cl.call v) (fun cfg l hs hl => ?_)
    ⟨.initial hi, by intro i cl hcl; cases hcl⟩ hg
  obtain ⟨hs, hseen⟩ := hs
  refine ⟨hs.next hrefl htrans hstart hreq hl, ?_⟩
  rcases cfg.next_cases impl l with heq | ⟨i, call, rfl, _, heq⟩ | ⟨i, choice, call, h, q, k, rfl, hc, heq⟩
  · rw [heq]
    exact hseen
  · rw [heq]
    exact forall_moved (by simp) hseen
  · rw [heq]
    have hnew := hvisit call h q cfg.store choice (hs.asks i _ hc).1 hs.store (hs.past i _ hc) (hl call h q k hc)
    exact forall_moved (forall_mem_cons.mpr ⟨hnew, hseen i _ hc⟩) hseen

end

theorem Config.run_visits {A : C → History S → S.Request → Prop}
    {V : C → Visit S → Prop} (hstart : ∀ s call, (impl call).Asks (A call) (fun _ _ => True) ⟨s, []⟩)
    (hreq : ∀ call h q s c, A call h q → I s → I (visit s q c).after)
    (hvisit : ∀ call h q s c, A call h q → V call (visit s q c)) {s₀ : S.Store}
    (hi : I s₀) (ls : List (Label S C)) {cl : Client S C α} (hcl : ((initial C α s₀).run impl ls).clients i = some cl) :
    ∀ v ∈ cl.history.visits, I v.before ∧ V cl.call v := by
  obtain ⟨hinv, hserved⟩ := run_served (R := fun _ _ => True) (g := Guard.free S C) (V := V)
    (fun _ => trivial) (fun _ _ _ _ _ => trivial) (fun s call _ => hstart s call)
    (fun call h q s c hq hs _ _ => ⟨hreq call h q s c hq hs, trivial⟩)
    (fun call h q s c hq _ _ _ => hvisit call h q s c hq) hi (Guard.free_admitsRun impl _ ls)
  exact fun v hv => ⟨((hinv.past i cl hcl).visits v hv).1, hserved i cl hcl v hv⟩

/-- One client alone. It stops early if the choices run out. -/
def Prog.exec : Prog S α → S.Store → List S.Choice → S.Store
  | .ret _, s, _ => s
  | .ask _ _, s, [] => s
  | .ask q k, s, c :: cs => (k (visit s q c).reply).exec (visit s q c).after cs

def runSequential (impl : C → Prog S α) (s : S.Store) (calls : List (C × List S.Choice)) : S.Store :=
  calls.foldl (fun s call => (impl call.1).exec s call.2) s

/-- Each visit begins where the one before it ended. -/
def Chained (began : S.Store) : List (Visit S) → Prop
  | [] => True
  | v :: vs => v.before = (History.mk began vs).latest ∧ Chained began vs

theorem Prog.exec_inv {A : History S → S.Request → Prop}
    {Q : History S → α → Prop} (hrefl : ∀ s, R s s) (htrans : ∀ s t u, R s t → R t u → R s u)
    (hreq : ∀ h q s c, A h q → I s → h.Past I R s → Chained h.began h.visits → h.latest = s →
    I (visit s q c).after ∧ R s (visit s q c).after)
    (cs : List S.Choice) {p : Prog S α} {h : History S} {s : S.Store} (hp : p.Asks A Q h) (hi : I s)
    (hpast : h.Past I R s) (hchained : Chained h.began h.visits) (hlatest : h.latest = s) : I (p.exec s cs) := by
  induction cs generalizing p h s with
  | nil => cases p <;> exact hi
  | cons c cs ih =>
    cases p with
    | ret a => exact hi
    | ask q k =>
      obtain ⟨hi', hr⟩ := hreq h q s c hp.1 hi hpast hchained hlatest
      exact ih (hp.2 s c) hi' (hpast.visit hrefl htrans hi hr) ⟨hlatest.symm, hchained⟩ rfl

/-- What holds in every sequence of calls, from what one request does of a client that is alone. -/
theorem runSequential_inv {A : C → History S → S.Request → Prop} {Q : C → History S → α → Prop} (hrefl : ∀ s, R s s)
    (htrans : ∀ s t u, R s t → R t u → R s u) (hstart : ∀ s call, (impl call).Asks (A call) (Q call) ⟨s, []⟩)
    (hreq : ∀ call h q s c, A call h q → I s → h.Past I R s → Chained h.began h.visits →
    h.latest = s → I (visit s q c).after ∧ R s (visit s q c).after)
    (calls : List (C × List S.Choice)) {s : S.Store} (hi : I s) : I (runSequential impl s calls) := by
  induction calls generalizing s with
  | nil => exact hi
  | cons call calls ih =>
    refine ih (exec_inv hrefl htrans (hreq call.1) call.2 (hstart s call.1) hi (.initial hrefl s) trivial rfl)

section
variable {R : S.Store → S.Store → Prop}

/-- A program that starts in the store `s` returns `a` and leaves the store `t`. Before each of its
requests, others move the store along `R`. -/
inductive Prog.Returns (R : S.Store → S.Store → Prop) : Prog S α → S.Store → α → S.Store → Prop
  | ret (a : α) (s : S.Store) : Returns R (.ret a) s a s
  | ask {q : S.Request} {k : S.Reply q → Prog S α} {s u t : S.Store} {a : α} (c : S.Choice) (hsu : R s u)
      (hk : Returns R (k (visit u q c).reply) (visit u q c).after a t) : Returns R (.ask q k) s a t

theorem Prog.Returns.of_request {q : S.Request} {s t : S.Store} {r : S.Reply q}
    (h : (request q).Returns R s r t) : ∃ u c, R s u ∧ S.serve u q c = (t, r) := by
  cases h with
  | ask c hsu hk =>
    cases hk
    exact ⟨_, c, hsu, rfl⟩

theorem Prog.Returns.of_bind {p : Prog S α} {f : α → Prog S β} {s u : S.Store} {b : β}
    (h : (p >>= f).Returns R s b u) : ∃ a t, p.Returns R s a t ∧ (f a).Returns R t b u := by
  induction p generalizing s with
  | ret a => exact ⟨a, s, .ret a s, h⟩
  | ask q k ih =>
    cases h with
    | ask c hsu hk =>
      obtain ⟨a, t, hreply, hf⟩ := ih _ hk
      exact ⟨a, t, .ask c hsu hreply, hf⟩

theorem Prog.Returns.of_bindExcept {p : ExceptT ε (Prog S) α} {f : α → ExceptT ε (Prog S) β}
    {s u : S.Store} {b : Except ε β} (h : (p >>= f).run.Returns R s b u) :
    (∃ a t, p.run.Returns R s (.ok a) t ∧ (f a).run.Returns R t b u) ∨
      ∃ e, p.run.Returns R s (.error e) u ∧ b = .error e := by
  rw [ExceptT.run_bind] at h
  obtain ⟨r, t, hp, hf⟩ := h.of_bind
  cases r with
  | ok a => exact .inl ⟨a, t, hp, hf⟩
  | error e =>
    cases hf
    exact .inr ⟨e, hp, rfl⟩

inductive Prog.Reaches (R : S.Store → S.Store → Prop) (p : Prog S α) (s : S.Store) : Prog S α → S.Store → Prop
  | start : Reaches R p s p s
  | ask {q : S.Request} {k : S.Reply q → Prog S α} {t u : S.Store} (c : S.Choice)
      (h : Reaches R p s (.ask q k) t) (htu : R t u) : Reaches R p s (k (visit u q c).reply) (visit u q c).after

theorem Prog.Reaches.returns {p p' : Prog S α} {s t u : S.Store} {a : α} (h : p.Reaches R s p' t)
    (hret : p'.Returns R t a u) : p.Returns R s a u := by
  induction h with
  | start => exact hret
  | ask c h htu ih => exact ih (.ask c htu hret)

/-- Every client has come to where it is under the interference of the others. -/
structure Config.Interfered (R : S.Store → S.Store → Prop) (impl : C → Prog S α) (s₀ : S.Store)
    (cfg : Config S C α) : Prop where
  store : R s₀ cfg.store
  clients : ∀ i cl, cfg.clients i = some cl → R s₀ cl.history.began ∧
    ∃ t, (impl cl.call).Reaches R cl.history.began cl.prog t ∧ R t cfg.store

theorem Config.Interfered.next (hrefl : ∀ s, R s s) (htrans : ∀ s t u, R s t → R t u → R s u)
    (hserve : ∀ s q c, R s (visit s q c).after) {s₀ : S.Store} (hs : cfg.Interfered R impl s₀)
    (l : Label S C) : (cfg.next impl l).Interfered R impl s₀ := by
  rcases cfg.next_cases impl l with heq | ⟨i, call, rfl, hnone, heq⟩ | ⟨i, choice, call, h, q, k, rfl, hc, heq⟩
  · rw [heq]
    exact hs
  · rw [heq]
    exact ⟨hs.store, forall_moved ⟨hs.store, _, .start, hrefl _⟩ hs.clients⟩
  · rw [heq]
    have hmove := hserve cfg.store q choice
    refine ⟨htrans _ _ _ hs.store hmove, forall_moved ?_ fun j cl hj => ?_⟩
    · obtain ⟨hbegan, t, hreaches, ht⟩ := hs.clients i _ hc
      exact ⟨hbegan, _, .ask choice hreaches ht, hrefl _⟩
    · obtain ⟨hbegan, t, hreaches, ht⟩ := hs.clients j cl hj
      exact ⟨hbegan, t, hreaches, htrans _ _ _ ht hmove⟩

theorem Config.run_returns (hrefl : ∀ s, R s s) (htrans : ∀ s t u, R s t → R t u → R s u)
    (hserve : ∀ s q c, R s (visit s q c).after) (s₀ : S.Store) (ls : List (Label S C))
    {call : C} {h : History S} {a : α} (hclient : ((initial C α s₀).run impl ls).clients i = some ⟨call, h, .ret a⟩) :
    R s₀ h.began ∧ ∃ t, (impl call).Returns R h.began a t ∧ R t ((initial C α s₀).run impl ls).store := by
  have hinitial : (initial C α s₀).Interfered R impl s₀ := ⟨hrefl s₀, by intros; contradiction⟩
  have hrun : ((initial C α s₀).run impl ls).Interfered R impl s₀ :=
    run_induction (fun _ l hs _ => hs.next hrefl htrans hserve l) hinitial (Guard.free_admitsRun impl _ ls)
  obtain ⟨hbegan, t, hreaches, ht⟩ := hrun.clients i _ hclient
  exact ⟨hbegan, t, hreaches.returns (.ret a t), ht⟩

variable {Fact : Type}

/-- The fact was made in one of the visits, after the visits before it. -/
def History.Made (makes : History S → Visit S → Fact → Prop) (h : History S) (f : Fact) : Prop :=
  ∃ later v earlier, h.visits = later ++ v :: earlier ∧ makes ⟨h.began, earlier⟩ v f

theorem History.Made.of_mem {makes : Visit S → Fact → Prop} {h : History S} {f : Fact} {v : Visit S}
    (hv : v ∈ h.visits) (hmakes : makes v f) : h.Made (fun _ => makes) f := by
  obtain ⟨later, earlier, hsplit⟩ := append_of_mem hv
  exact ⟨later, v, earlier, hsplit, hmakes⟩

theorem History.Made.extends {makes : History S → Visit S → Fact → Prop} {V : Visit S → Prop}
    {h h' : History S} {f : Fact} (hmade : h.Made makes f) (hx : h.Extends V h') : h'.Made makes f := by
  obtain ⟨hbegan, vs, hvs, _⟩ := hx
  obtain ⟨later, v, earlier, hsplit, hmakes⟩ := hmade
  refine ⟨vs ++ later, v, earlier, ?_, hbegan ▸ hmakes⟩
  rw [hvs, hsplit, append_assoc]

def Config.Made (makes : C → History S → Visit S → Fact → Prop) (cfg : Config S C α) (f : Fact) : Prop :=
  ∃ i cl, cfg.clients i = some cl ∧ cl.history.Made (makes cl.call) f

theorem Config.Made.next {makes : C → History S → Visit S → Fact → Prop} {f : Fact}
    (h : cfg.Made makes f) (impl : C → Prog S α) (l : Label S C) : (cfg.next impl l).Made makes f := by
  obtain ⟨i, cl, hcl, hmade⟩ := h
  rcases next_client impl l hcl with hkept | ⟨_, _, _, _, hnext⟩
  · exact ⟨i, cl, hkept, hmade⟩
  · exact ⟨i, _, hnext, hmade.extends (V := fun _ => True) ((History.Extends.refl _).add trivial)⟩

/-- What the store holds and what it has shown to a client has been made by some client. -/
structure Config.Traced (makes : C → History S → Visit S → Fact → Prop) (holds : S.Store → Fact → Prop)
    (shows : Visit S → Fact → Prop) (A : C → History S → S.Request → Prop) (Q : C → History S → α → Prop)
    (cfg : Config S C α) : Prop where
  held : ∀ f, holds cfg.store f → cfg.Made makes f
  shown : ∀ i cl, cfg.clients i = some cl → ∀ v ∈ cl.history.visits, ∀ f, shows v f → cfg.Made makes f
  asks : ∀ i cl, cfg.clients i = some cl → cl.prog.Asks (A cl.call) (Q cl.call) cl.history

variable {makes : C → History S → Visit S → Fact → Prop} {holds : S.Store → Fact → Prop} {shows : Visit S → Fact → Prop}
  {A : C → History S → S.Request → Prop} {Q : C → History S → α → Prop} {impl : C → Prog S α}

variable (hstart : ∀ s call, (impl call).Asks (A call) (Q call) ⟨s, []⟩)
  (hshows : ∀ s q c f, shows (visit s q c) f → holds s f)
  (hserve : ∀ call h q s c f, A call h q → holds (visit s q c).after f → holds s f ∨
    makes call h (visit s q c) f ∨ h.Made (makes call) f ∨ ∃ v ∈ h.visits, shows v f)
include hstart hshows hserve

theorem Config.Traced.next (ht : cfg.Traced makes holds shows A Q) (l : Label S C) :
    (cfg.next impl l).Traced makes holds shows A Q := by
  have hkept : ∀ f, cfg.Made makes f → (cfg.next impl l).Made makes f := fun f hf => hf.next impl l
  rcases cfg.next_cases impl l with heq | ⟨i, call, rfl, hnone, heq⟩ | ⟨i, choice, call, h, q, k, rfl, hc, heq⟩
  · rw [heq]
    exact ht
  · rw [heq] at hkept ⊢
    exact ⟨fun f hf => hkept f (ht.held f hf), forall_moved (by simp)
      fun j cl hj v hv f hf => hkept f (ht.shown j cl hj v hv f hf), forall_moved (hstart _ _) ht.asks⟩
  · rw [heq] at hkept ⊢
    have hask := ht.asks i _ hc
    refine ⟨fun f hf => ?_, forall_moved (forall_mem_cons.mpr ⟨fun f hf => ?_, fun v hv f hf => ?_⟩)
      fun j cl hj v hv f hf => hkept f (ht.shown j cl hj v hv f hf), forall_moved (hask.2 cfg.store choice) ht.asks⟩
    · rcases hserve call h q cfg.store choice f hask.1 hf with hheld | hmakes | hmade | ⟨v, hv, hshown⟩
      · exact hkept f (ht.held f hheld)
      · exact ⟨i, _, cfg.moved_self i _ _, [], _, h.visits, rfl, hmakes⟩
      · exact hkept f ⟨i, _, hc, hmade⟩
      · exact hkept f (ht.shown i _ hc v hv f hshown)
    · exact hkept f (ht.held f (hshows _ _ _ f hf))
    · exact hkept f (ht.shown i _ hc v hv f hf)

/-- Facts only come into the store from clients that make them or carry them over. -/
theorem Config.run_traced {s₀ : S.Store} (hempty : ∀ f, ¬ holds s₀ f) (ls : List (Label S C)) :
    ((initial C α s₀).run impl ls).Traced makes holds shows A Q := by
  have hinitial : (initial C α s₀).Traced makes holds shows A Q :=
    ⟨fun f hf => absurd hf (hempty f), by intros; contradiction, by intros; contradiction⟩
  exact run_induction (fun _ l ht _ => ht.next hstart hshows hserve l) hinitial (Guard.free_admitsRun impl _ ls)

end

section

/-- What a client that is left alone returns, with the store it leaves, when the environment decides
about every request in the same way. -/
def Prog.eval (c : S.Choice) : Prog S α → S.Store → α × S.Store
  | .ret a, s => (a, s)
  | .ask q k, s => (k (visit s q c).reply).eval c (visit s q c).after

theorem Prog.eval_bind (c : S.Choice) (p : Prog S α) (f : α → Prog S β) (s : S.Store) :
    (p >>= f).eval c s = (f (p.eval c s).1).eval c (p.eval c s).2 := by
  induction p generalizing s with
  | ret a => rfl
  | ask q k ih => exact ih _ _

variable {c : S.Choice}

theorem Prog.eval_bindExcept {p : ExceptT ε (Prog S) α} {f : α → ExceptT ε (Prog S) β}
    {s t : S.Store} {a : α} (h : p.run.eval c s = (.ok a, t)) : (p >>= f).run.eval c s = (f a).run.eval c t := by
  rw [ExceptT.run_bind, eval_bind, h]

theorem Prog.eval_adapt {ε' : Type} {p : ExceptT ε (Prog S) α} {s t : S.Store} {a : α} (f : ε → ε')
    (h : p.run.eval c s = (.ok a, t)) : (ExceptT.adapt f p).run.eval c s = (.ok a, t) := by
  change (p.run >>= _ : Prog S _).eval c s = _
  rw [eval_bind, h]
  rfl

theorem Prog.eval_ofExcept (c : S.Choice) (x : Except ε α) (s : S.Store) :
    (MonadExcept.ofExcept x : ExceptT ε (Prog S) α).run.eval c s = (x, s) := by
  cases x with
  | ok a | error e => rfl

theorem Prog.Asks.eval_preserves {A : History S → S.Request → Prop} {Q : History S → α → Prop} {I : S.Store → Prop}
    (hI : ∀ h q s, A h q → I s → I (visit s q c).after) {p : Prog S α} {h : History S}
    (hp : p.Asks A Q h) {s : S.Store} (hs : I s) : I (p.eval c s).2 := by
  induction p generalizing h s with
  | ret a => exact hs
  | ask q k ih => exact ih _ (hp.2 s c) (hI h q s hp.1 hs)

/-- Left alone in a store of `P`, the program returns, and `Q` holds of its result and of the store it leaves. -/
def Prog.Yields (c : S.Choice) (P : S.Store → Prop) (p : Prog S α) (Q : α → S.Store → Prop) : Prop :=
  ∀ s, P s → Q (p.eval c s).1 (p.eval c s).2

section
variable {c : S.Choice} {P : S.Store → Prop}

theorem Prog.Yields.mono {p : Prog S α} {Q Q' : α → S.Store → Prop} (h : p.Yields c P Q)
    (hQ : ∀ a s, Q a s → Q' a s) : p.Yields c P Q' :=
  fun s hs => hQ _ _ (h s hs)

theorem Prog.Yields.pre {P' : S.Store → Prop} {p : Prog S α} {Q : α → S.Store → Prop} (h : p.Yields c P Q)
    (hP : ∀ s, P' s → P s) : p.Yields c P' Q :=
  fun s hs => h s (hP s hs)

variable {Q : Except ε β → S.Store → Prop} {f : α → ExceptT ε (Prog S) β}

theorem Prog.Yields.bindExcept {p : ExceptT ε (Prog S) α} {R : Except ε α → S.Store → Prop} (hp : p.run.Yields c P R)
    (hok : ∀ a, (f a).run.Yields c (R (.ok a)) Q) (herr : ∀ e s, R (.error e) s → Q (.error e) s) :
    (p >>= f).run.Yields c P Q := by
  intro s hs
  have hr := hp s hs
  rw [ExceptT.run_bind, eval_bind]
  cases hrun : (p.run.eval c s).1 with
  | ok a =>
    rw [hrun] at hr
    exact hok a _ hr
  | error e =>
    rw [hrun] at hr
    exact herr e _ hr

variable {R : α → S.Store → Prop}

theorem Prog.Yields.bindResult {p : Prog S α} (hp : p.Yields c P R) (hf : ∀ a, (f a).run.Yields c (R a) Q) :
    (ExceptT.lift p >>= f).run.Yields c P Q := by
  intro s hs
  have hlift : (ExceptT.lift p : ExceptT ε (Prog S) α).run.eval c s = (.ok (p.eval c s).1, (p.eval c s).2) := by
    change (p >>= fun a => pure (.ok a) : Prog S (Except ε α)).eval c s = _
    rw [eval_bind]
    rfl
  rw [eval_bindExcept hlift]
  exact hf _ _ (hp s hs)

theorem Prog.Yields.bindOk {p : ExceptT ε (Prog S) α}
    (hp : p.run.Yields c P fun r s => ∃ a, r = .ok a ∧ R a s)
    (hf : ∀ a, (f a).run.Yields c (R a) Q) : (p >>= f).run.Yields c P Q := by
  refine hp.bindExcept ?_ ?_
  · rintro a s ⟨_, ⟨⟩, hs⟩
    exact hf a s hs
  · rintro e s ⟨_, ⟨⟩, _⟩

end

theorem Config.run_alone (impl : C → Prog S α) (c : S.Choice) (i : Nat) (call : C) (p : Prog S α)
    {h : History S} (hc : cfg.clients i = some ⟨call, h, p⟩) :
    ∃ ls h', cfg.run impl ls = cfg.moved i ⟨call, h', .ret (p.eval c cfg.store).1⟩ (p.eval c cfg.store).2 := by
  induction p generalizing h cfg with
  | ret a =>
    refine ⟨[], h, ?_⟩
    rw [run_nil, moved, Prog.eval, ← hc, update_eq_self]
  | ask q k ih =>
    have hnext : cfg.next impl (.step i c) = cfg.moved i ⟨call, h.add (visit cfg.store q c),
        k (visit cfg.store q c).reply⟩ (visit cfg.store q c).after := by
      simp only [next, hc, moved]
    obtain ⟨ls, h', hrun⟩ := ih (visit cfg.store q c).reply (cfg.moved_self i _ _)
    refine ⟨.step i c :: ls, h', ?_⟩
    rw [run_cons, hnext, hrun]
    simp only [moved, update_idem]
    rfl

theorem Config.run_call (impl : C → Prog S α) (c : S.Choice) (call : C)
    (hnone : cfg.clients i = none) : ∃ ls h, cfg.run impl ls =
      cfg.moved i ⟨call, h, .ret ((impl call).eval c cfg.store).1⟩ ((impl call).eval c cfg.store).2 := by
  have hnext : cfg.next impl (.start i call) = cfg.moved i ⟨call, ⟨cfg.store, []⟩, impl call⟩ cfg.store := by
    simp only [next, hnone, moved]
  obtain ⟨ls, h, hrun⟩ := run_alone impl c i call (impl call) (cfg.moved_self i _ _)
  refine ⟨.start i call :: ls, h, ?_⟩
  rw [run_cons, hnext, hrun]
  simp only [moved, update_idem]

/-- Further requests that only read the store. -/
structure Reads (Store : Type) where
  Request : Type
  Reply : Request → Type
  Choice : Type
  answer : Store → (q : Request) → Choice → Reply q

/-- The service with the further requests. -/
@[reducible] def Service.withReads (S : Service) (E : Reads S.Store) : Service where
  Store := S.Store
  Request := S.Request ⊕ E.Request
  Reply := Sum.elim S.Reply E.Reply
  Choice := S.Choice × E.Choice
  serve s q c := match q with
    | .inl q => S.serve s q c.1
    | .inr q => (s, E.answer s q c.2)

variable {E : Reads S.Store}

def Prog.widen (E : Reads S.Store) : Prog S α → Prog (S.withReads E) α
  | .ret a => .ret a
  | .ask q k => .ask (S := S.withReads E) (.inl q) fun r => (k r).widen E

def Visit.Own (v : Visit (S.withReads E)) : Prop := ∃ q, v.request = Sum.inl q

theorem Prog.Asks.widen {A : History S → S.Request → Prop}
    {Q : History S → α → Prop} {A' : History (S.withReads E) → (S.withReads E).Request → Prop} {p : Prog S α}
    {h : History S} {h₀ h' : History (S.withReads E)} (hp : p.Asks A Q h) (hA : ∀ h h' q, A h q → A' h' (.inl q))
    (hx : h₀.Extends Visit.Own h') : (p.widen E).Asks A' (fun h' _ => h₀.Extends Visit.Own h') h' := by
  induction p generalizing h h' with
  | ret a => exact hx
  | ask q k ih =>
    refine ⟨hA h h' q hp.1, fun s c => ?_⟩
    exact ih _ (hp.2 s c.1) (hx.add ⟨q, rfl⟩)

theorem Prog.eval_widen (c : (S.withReads E).Choice) (p : Prog S α) (s : S.Store) :
    (p.widen E).eval c s = p.eval c.1 s := by
  induction p generalizing s with
  | ret a => rfl
  | ask q k ih => exact ih _ _

end

end ForgeGuard.Interleaving
