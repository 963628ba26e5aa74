import Mathlib.Data.List.Basic
import Mathlib.Logic.Relation

namespace QueQiao.Lib.CrashLogic

/-- The state of a process, with what befalls its next steps and the states it has been in, the
newest first. -/
structure World (φ σ : Type) where
  state : σ
  faults : List φ
  past : List σ

/-- A program that fails or returns; its process can stop in any state it comes to. -/
def Prog (φ σ ε α : Type) := World φ σ → Except ε α × World φ σ

variable {φ σ ε α β : Type}

namespace Prog

def ret (a : α) : Prog φ σ ε α := fun w ↦ (.ok a, w)

def fail (e : ε) : Prog φ σ ε α := fun w ↦ (.error e, w)

def andThen (p : Prog φ σ ε α) (f : α → Prog φ σ ε β) : Prog φ σ ε β := fun w ↦
  match p w with
  | (.ok a, w') => f a w'
  | (.error e, w') => (.error e, w')

instance : Monad (Prog φ σ ε) where
  pure := ret
  bind := andThen

def attempt (p : Prog φ σ ε α) : Prog φ σ ε (Except ε α) := fun w ↦ (.ok (p w).1, (p w).2)

/-- What the program reads cannot fail. -/
def look : Prog φ σ ε σ := fun w ↦ (.ok w.state, w)

def change (f : σ → Except ε α × σ) : Prog φ σ ε α := fun w ↦
  let r := f w.state
  (r.1, ⟨r.2, w.faults, r.2 :: w.past⟩)

/-- One step, with the next fault; without a fault to come it has the default. -/
def step [Inhabited φ] (f : φ → σ → Except ε α × σ) : Prog φ σ ε α := fun w ↦
  let r := f (w.faults.headD default) w.state
  (r.1, ⟨r.2, w.faults.tail, r.2 :: w.past⟩)

def forEach (f : α → Prog φ σ ε Unit) : List α → Prog φ σ ε Unit
  | [] => ret ()
  | a :: as => do
    f a
    forEach f as

end Prog

def Ends (post : α → σ → Prop) (raised : ε → σ → Prop) (s : σ) : Except ε α → Prop
  | .ok a => post a s
  | .error e => raised e s

/-- From a state with `pre`, whatever befalls, all states on the way have `crash`, and the last one
`post` or `raised`. -/
def Triple (crash pre : σ → Prop) (p : Prog φ σ ε α) (post : α → σ → Prop) (raised : ε → σ → Prop) :
    Prop :=
  ∀ w : World φ σ, pre w.state →
    (∀ s ∈ (p w).2.past, s ∈ w.past ∨ crash s) ∧ Ends post raised (p w).2.state (p w).1

variable {crash crash' pre pre' : σ → Prop} {p : Prog φ σ ε α} {post post' : α → σ → Prop}
  {raised raised' : ε → σ → Prop}

namespace Triple

theorem ret {a : α} (h : ∀ s, pre s → post a s) : Triple (φ := φ) crash pre (pure a) post raised :=
  fun w hpre ↦ ⟨fun _ ↦ .inl, h w.state hpre⟩

theorem fail {e : ε} (h : ∀ s, pre s → raised e s) :
    Triple (φ := φ) crash pre (.fail e) post raised :=
  fun w hpre ↦ ⟨fun _ ↦ .inl, h w.state hpre⟩

theorem bind {f : α → Prog φ σ ε β} {mid : α → σ → Prop} {post : β → σ → Prop}
    (h : Triple crash pre p mid raised) (hf : ∀ a, Triple crash (mid a) (f a) post raised) :
    Triple crash pre (p >>= f) post raised := by
  intro w hpre
  obtain ⟨hpast, hend⟩ := h w hpre
  have hrest : (∀ s ∈ (Prog.andThen p f w).2.past, s ∈ (p w).2.past ∨ crash s) ∧
      Ends post raised (Prog.andThen p f w).2.state (Prog.andThen p f w).1 := by
    rw [Prog.andThen]
    revert hend
    generalize p w = r
    obtain ⟨r, w'⟩ := r
    cases r with
    | ok a => exact hf a w'
    | error e => exact fun hend ↦ ⟨fun _ ↦ .inl, hend⟩
  exact ⟨fun s hs ↦ (hrest.1 s hs).elim (hpast s) .inr, hrest.2⟩

theorem bind_attempt {f : Except ε α → Prog φ σ ε β} {post' : β → σ → Prop}
    (h : Triple crash pre p post raised) (hok : ∀ a, Triple crash (post a) (f (.ok a)) post' raised')
    (herror : ∀ e, Triple crash (raised e) (f (.error e)) post' raised') :
    Triple crash pre (p.attempt >>= f) post' raised' := by
  intro w hpre
  obtain ⟨hpast, hend⟩ := h w hpre
  have hrest : (∀ s ∈ (f (p w).1 (p w).2).2.past, s ∈ (p w).2.past ∨ crash s) ∧
      Ends post' raised' (f (p w).1 (p w).2).2.state (f (p w).1 (p w).2).1 := by
    cases hr : (p w).1 with
    | ok a => exact hok a _ (by rwa [hr] at hend)
    | error e => exact herror e _ (by rwa [hr] at hend)
  exact ⟨fun s hs ↦ (hrest.1 s hs).elim (hpast s) .inr, hrest.2⟩

theorem look_bind {f : σ → Prog φ σ ε β} {post : β → σ → Prop}
    (h : ∀ s, pre s → Triple crash (· = s) (f s) post raised) :
    Triple crash pre (.look >>= f) post raised :=
  fun w hpre ↦ h w.state hpre w rfl

theorem of_each (h : ∀ s, pre s → Triple crash (· = s) p post raised) : Triple crash pre p post raised :=
  fun w hpre ↦ h w.state hpre w rfl

theorem change {f : σ → Except ε α × σ}
    (h : ∀ s, pre s → crash (f s).2 ∧ Ends post raised (f s).2 (f s).1) :
    Triple (φ := φ) crash pre (.change f) post raised := by
  intro w hpre
  obtain ⟨hcrash, hend⟩ := h w.state hpre
  refine ⟨fun s hs ↦ ?_, hend⟩
  rcases List.mem_cons.mp hs with rfl | hs
  · exact .inr hcrash
  · exact .inl hs

theorem step [Inhabited φ] {f : φ → σ → Except ε α × σ}
    (h : ∀ fault s, pre s → crash (f fault s).2 ∧ Ends post raised (f fault s).2 (f fault s).1) :
    Triple crash pre (.step f) post raised := by
  intro w hpre
  obtain ⟨hcrash, hend⟩ := h (w.faults.headD default) w.state hpre
  refine ⟨fun s hs ↦ ?_, hend⟩
  rcases List.mem_cons.mp hs with rfl | hs
  · exact .inr hcrash
  · exact .inl hs

theorem mono (h : Triple crash pre p post raised) (hpre : ∀ s, pre' s → pre s)
    (hpost : ∀ a s, post a s → post' a s) (hraised : ∀ e s, raised e s → raised' e s) :
    Triple crash pre' p post' raised' := by
  intro w hw
  obtain ⟨hpast, hend⟩ := h w (hpre w.state hw)
  refine ⟨hpast, ?_⟩
  revert hend
  cases (p w).1 with
  | ok a => exact hpost a _
  | error e => exact hraised e _

theorem pre_mono (h : Triple crash pre p post raised) (hpre : ∀ s, pre' s → pre s) :
    Triple crash pre' p post raised := h.mono hpre (fun _ _ ↦ id) fun _ _ ↦ id

theorem raised_mono (h : Triple crash pre p post raised) (hraised : ∀ e s, raised e s → raised' e s) :
    Triple crash pre p post raised' := h.mono (fun _ ↦ id) (fun _ _ ↦ id) hraised

theorem crash_mono (h : Triple crash pre p post raised) (hcrash : ∀ s, crash s → crash' s) :
    Triple crash' pre p post raised :=
  fun w hw ↦ ⟨fun s hs ↦ ((h w hw).1 s hs).imp_right (hcrash s), (h w hw).2⟩

theorem exists_pre {ι : Type} {pre : ι → σ → Prop} (h : ∀ i, Triple crash (pre i) p post raised) :
    Triple crash (fun s ↦ ∃ i, pre i s) p post raised :=
  fun w ⟨i, hi⟩ ↦ h i w hi

theorem or_pre (h : Triple crash pre p post raised) (h' : Triple crash pre' p post raised) :
    Triple crash (fun s ↦ pre s ∨ pre' s) p post raised :=
  fun w hw ↦ hw.elim (h w) (h' w)

theorem assuming {q : Prop} (h : q → Triple crash pre p post raised) :
    Triple crash (fun s ↦ q ∧ pre s) p post raised :=
  fun w ⟨hq, hw⟩ ↦ h hq w hw

theorem anything : Triple (fun _ ↦ True) pre p (fun _ _ ↦ True) fun _ _ ↦ True := by
  refine fun w _ ↦ ⟨fun _ _ ↦ .inr trivial, ?_⟩
  cases (p w).1 with
  | ok a => trivial
  | error e => trivial

theorem forEach {f : α → Prog φ σ ε Unit} {as : List α} {inv : List α → σ → Prop}
    {raised : ε → σ → Prop}
    (h : ∀ a rest, Triple crash (inv (a :: rest)) (f a) (fun _ ↦ inv rest) raised) :
    Triple crash (inv as) (Prog.forEach f as) (fun _ ↦ inv []) raised := by
  induction as with
  | nil => exact ret fun _ hs ↦ hs
  | cons a as ih => exact bind (h a as) fun _ ↦ ih

end Triple

/-- A process that runs the program from `s` can stop in `s'`. -/
def Passes (p : Prog φ σ ε α) (s s' : σ) : Prop := ∃ faults, s' ∈ (p ⟨s, faults, [s]⟩).2.past

/-- The states in which processes can stop that run the program one after another, each from
where the one before has stopped. -/
def Restarts (p : Prog φ σ ε α) : σ → σ → Prop := Relation.ReflTransGen (Passes p)

theorem Triple.passes (h : Triple crash crash p post raised) {s s' : σ} (hs : crash s)
    (hpass : Passes p s s') : crash s' := by
  obtain ⟨faults, hmem⟩ := hpass
  rcases (h ⟨s, faults, [s]⟩ hs).1 s' hmem with hstart | hcrash
  · exact List.mem_singleton.mp hstart ▸ hs
  · exact hcrash

theorem Triple.restarts (h : Triple crash crash p post raised) {s s' : σ} (hs : crash s)
    (hrun : Restarts p s s') : crash s' := by
  induction hrun with
  | refl => exact hs
  | tail _ hpass ih => exact h.passes ih hpass

/-- From a state with `pre` and without faults to come, the program returns. -/
def Returns (pre : σ → Prop) (p : Prog φ σ ε α) : Prop :=
  ∀ w : World φ σ, w.faults = [] → pre w.state → (∃ a, (p w).1 = .ok a) ∧ (p w).2.faults = []

namespace Returns

theorem ret {a : α} : Returns (φ := φ) (ε := ε) pre (pure a) := fun _ hfaults _ ↦ ⟨⟨a, rfl⟩, hfaults⟩

theorem bind {f : α → Prog φ σ ε β} {mid : α → σ → Prop} (h : Returns pre p)
    (hmid : Triple crash pre p mid raised) (hf : ∀ a, Returns (mid a) (f a)) :
    Returns pre (p >>= f) := by
  intro w hfaults hpre
  obtain ⟨⟨a, ha⟩, hfaults'⟩ := h w hfaults hpre
  have hend := (hmid w hpre).2
  rw [ha] at hend
  have hthen : (p >>= f) w = f a (p w).2 := by
    change Prog.andThen p f w = _
    rw [Prog.andThen]
    revert ha
    generalize p w = r
    obtain ⟨r, w'⟩ := r
    rintro rfl
    rfl
  rw [hthen]
  exact hf a (p w).2 hfaults' hend

theorem look_bind {f : σ → Prog φ σ ε β} (h : ∀ s, pre s → Returns (· = s) (f s)) :
    Returns pre (.look >>= f) := fun w hfaults hpre ↦ h w.state hpre w hfaults rfl

theorem step [Inhabited φ] {f : φ → σ → Except ε α × σ}
    (h : ∀ s, pre s → ∃ a, (f default s).1 = .ok a) : Returns pre (.step f) := by
  intro w hfaults hpre
  have hhead : w.faults.headD default = default := by rw [hfaults]; rfl
  refine ⟨?_, ?_⟩
  · change ∃ a, (f (w.faults.headD default) w.state).1 = .ok a
    rw [hhead]
    exact h w.state hpre
  · change w.faults.tail = []
    rw [hfaults]
    rfl

theorem assuming {q : Prop} (h : q → Returns pre p) : Returns (fun s ↦ q ∧ pre s) p :=
  fun w hfaults ⟨hq, hw⟩ ↦ h hq w hfaults hw

theorem pre_mono (h : Returns pre p) (hpre : ∀ s, pre' s → pre s) : Returns pre' p :=
  fun w hfaults hw ↦ h w hfaults (hpre w.state hw)

theorem forEach {f : α → Prog φ σ ε Unit} {as : List α} {inv : List α → σ → Prop}
    (h : ∀ a rest, Triple crash (inv (a :: rest)) (f a) (fun _ ↦ inv rest) raised)
    (hf : ∀ a rest, Returns (inv (a :: rest)) (f a)) : Returns (inv as) (Prog.forEach f as) := by
  induction as with
  | nil => exact ret
  | cons a as ih => exact (hf a as).bind (h a as) fun _ ↦ ih

end Returns

end QueQiao.Lib.CrashLogic
