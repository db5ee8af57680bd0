import ForgeGuard.Interleaving
import ForgeGuard.Tables

/-! Programs of one service that run on another, and a service whose further reads may lag behind its
store. -/

namespace ForgeGuard.Interleaving
open List

section
variable {S T : Service} {α β : Type}

/-- Which request of `T` stands for a request of `S`, and how its reply is read. -/
structure Embedding (S T : Service) where
  ask : (q : S.Request) → (r : T.Request) × (T.Reply r → S.Reply q)

def Prog.embed (e : Embedding S T) : Prog S α → Prog T α
  | .ret a => .ret a
  | .ask q k => .ask (e.ask q).1 fun r => (k ((e.ask q).2 r)).embed e

/-- Whatever `T` answers to the request that stands for `q`, `S` can answer to `q`, in a visit that
`rel` relates to the visit of `T`. -/
def Embedding.Faithful (e : Embedding S T) (rel : Visit S → Visit T → Prop) : Prop :=
  ∀ q t c, ∃ s c', (visit s q c').reply = (e.ask q).2 (visit t (e.ask q).1 c).reply ∧
    rel (visit s q c') (visit t (e.ask q).1 c)

/-- The visits since `base` are the visits of `h`, each in its own service. -/
def History.Shadows (rel : Visit S → Visit T → Prop) (h : History S) (base h' : History T) : Prop :=
  h'.began = base.began ∧ ∃ vs, h'.visits = vs ++ base.visits ∧ List.Forall₂ rel h.visits vs

theorem History.Shadows.refl {rel : Visit S → Visit T → Prop} (base : History T) (s : S.Store) :
    History.Shadows rel ⟨s, []⟩ base base :=
  ⟨rfl, [], rfl, .nil⟩

theorem History.Shadows.add {rel : Visit S → Visit T → Prop} {base h' : History T} {h : History S}
    (hh : h.Shadows rel base h') {v : Visit S} {v' : Visit T} (hv : rel v v') :
    (h.add v).Shadows rel base (h'.add v') := by
  obtain ⟨hbegan, vs, hvs, hall⟩ := hh
  refine ⟨hbegan, v' :: vs, ?_, .cons hv hall⟩
  rw [History.visits_add, hvs, cons_append]

theorem History.Shadows.eq_base {rel : Visit S → Visit T → Prop} {base h' : History T} {h : History S}
    (hh : h.Shadows rel base h') (hnone : h.visits = []) : h' = base := by
  obtain ⟨hbegan, vs, hvs, hall⟩ := hh
  rw [hnone, forall₂_nil_left_iff] at hall
  obtain ⟨began, visits⟩ := h'
  rw [hall] at hvs
  exact congrArg₂ History.mk hbegan hvs

theorem History.Shadows.eq_add {rel : Visit S → Visit T → Prop} {base h' : History T} {s : S.Store} {v : Visit S}
    (hh : History.Shadows rel ⟨s, [v]⟩ base h') : ∃ v', rel v v' ∧ h' = base.add v' := by
  obtain ⟨hbegan, vs, hvs, hall⟩ := hh
  obtain ⟨v', ws, hv, hrest, rfl⟩ := forall₂_cons_left_iff.mp hall
  rw [forall₂_nil_left_iff.mp hrest] at hvs
  obtain ⟨began, visits⟩ := h'
  exact ⟨v', hv, congrArg₂ History.mk hbegan hvs⟩

theorem History.Shadows.exists_visit {rel : Visit S → Visit T → Prop} {base h' : History T} {h : History S}
    (hh : h.Shadows rel base h') {v : Visit S} (hv : v ∈ h.visits) : ∃ v' ∈ h'.visits, rel v v' := by
  obtain ⟨-, vs, hvs, hall⟩ := hh
  obtain ⟨v', hv', hrel⟩ := Tables.exists_of_forall₂ hall hv
  exact ⟨v', by rw [hvs]; exact mem_append_left _ hv', hrel⟩

theorem Prog.Asks.embed {e : Embedding S T} {rel : Visit S → Visit T → Prop} (he : e.Faithful rel)
    {A : History S → S.Request → Prop} {Q : History S → α → Prop} {p : Prog S α} {h : History S}
    {base h' : History T} (hp : p.Asks A Q h) (hh : h.Shadows rel base h') :
    (p.embed e).Asks (fun g' r => ∃ g q, g.Shadows rel base g' ∧ A g q ∧ r = (e.ask q).1)
      (fun g' a => ∃ g, g.Shadows rel base g' ∧ Q g a) h' := by
  induction p generalizing h h' with
  | ret a => exact ⟨h, hh, hp⟩
  | ask q k ih =>
    refine ⟨⟨h, q, hh, hp.1, rfl⟩, fun t c => ?_⟩
    obtain ⟨s, c', hreply, hrel⟩ := he q t c
    have hrest := ih _ (hp.2 s c') (hh.add hrel)
    rwa [hreply] at hrest

variable {E : Reads S.Store}

/-- The requests of the service itself. -/
def Embedding.own (E : Reads S.Store) : Embedding S (S.withReads E) where
  ask q := ⟨.inl q, id⟩

theorem Prog.widen_eq_embed (p : Prog S α) : p.widen E = p.embed (.own E) := by
  induction p with
  | ret a => rfl
  | ask q k ih =>
    exact congrArg (Prog.ask (S := S.withReads E) (.inl q)) (funext ih)

def Visit.wide (E : Reads S.Store) (v : Visit S) : Visit (S.withReads E) :=
  ⟨v.before, .inl v.request, v.reply, v.after⟩

theorem Embedding.own_faithful : (Embedding.own E).Faithful fun v v' => v' = v.wide E :=
  fun _ t c => ⟨t, c.1, rfl, rfl⟩

end

/-- A store with the states it has been in, the latest first. -/
structure Versions (Store : Type) where
  current : Store
  past : List Store

def Versions.version {Store : Type} (s : Versions Store) (age : Nat) : Store := (s.current :: s.past).getD age s.current

theorem Versions.version_mem {Store : Type} (s : Versions Store) (age : Nat) : s.version age ∈ s.current :: s.past := by
  rw [version, getD_eq_getElem?_getD]
  cases hage : (s.current :: s.past)[age]? with
  | none => exact mem_cons_self
  | some t => exact mem_of_getElem? hage

/-- The store has been in one state only. -/
def Versions.Constant {Store : Type} (s : Versions Store) (t : Store) : Prop := ∀ u ∈ s.current :: s.past, u = t

theorem Versions.Constant.current_eq {Store : Type} {s : Versions Store} {t : Store} (h : s.Constant t) :
    s.current = t :=
  h s.current mem_cons_self

theorem Versions.Constant.version_eq {Store : Type} {s : Versions Store} {t : Store} (h : s.Constant t) (age : Nat) :
    s.version age = t :=
  h _ (s.version_mem age)

/-- The service itself answers from its present state. Each further read is answered from the present or
an earlier one; the reply carries the age of that state, which no program looks at. -/
@[reducible] def Service.withStale (S : Service) (E : Reads S.Store) : Service where
  Store := Versions S.Store
  Request := S.Request ⊕ E.Request
  Reply := Sum.elim S.Reply fun q => Nat × E.Reply q
  Choice := S.Choice × E.Choice × Nat
  serve s q c := match q with
    | .inl q => (⟨(S.serve s.current q c.1).1, s.current :: s.past⟩, (S.serve s.current q c.1).2)
    | .inr q => (s, (c.2.2, E.answer (s.version c.2.2) q c.2.1))

section
variable {S : Service} {E : Reads S.Store} {α : Type}

def Embedding.strong (E : Reads S.Store) : Embedding S (S.withStale E) where
  ask q := ⟨.inl q, id⟩

def Visit.Present (v : Visit S) (v' : Visit (S.withStale E)) : Prop :=
  ∃ past past', v' = ⟨⟨v.before, past⟩, .inl v.request, v.reply, ⟨v.after, past'⟩⟩

theorem Embedding.strong_faithful : (Embedding.strong E).Faithful Visit.Present :=
  fun _ t c => ⟨t.current, c.1, rfl, t.past, t.current :: t.past, rfl⟩

end

end ForgeGuard.Interleaving
