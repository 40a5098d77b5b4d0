import ProxyTrace.Session

/-!
# Running computations

`WorkspaceM.on` and `SessionM.on` run a computation in a state and give its answer with the state
afterwards, so that the later modules evaluate a `do` block by rewriting and never unfold the
monads. A bind is opened by the outcome of its first part: `on_bind_ok` and `on_bind_error`.

What is said of computations has one rule for each way to put them together: `Ensures`, that a
failure changes nothing and a success ends as described, and `AgreeAt`, that two runs from one
session end alike. `SucceedsIff` is said of one run, when it is known whether it succeeds, and
`AnswersIff` of a computation without a state.
-/

namespace ProxyTrace

variable {α β : Type}

/-- From the state `s` a computation succeeds exactly if `P` holds, with an answer as `post` says.
Otherwise it fails as `failed` says, and the state is as it was. -/
inductive SucceedsIff {σ : Type} (s : σ) (P : Prop) (post : α → Prop) (failed : Error → Prop) :
    Except Error α × σ → Prop
  | ok {a : α} {s' : σ} (hP : P) (ha : post a) : SucceedsIff s P post failed (.ok a, s')
  | error {e : Error} (hP : ¬P) (he : failed e) : SucceedsIff s P post failed (.error e, s)

namespace SucceedsIff

variable {σ : Type} {s s' : σ} {P : Prop} {post : α → Prop} {failed : Error → Prop}
  {r : Except Error α × σ}

theorem exists_ok_iff (h : SucceedsIff s P post failed r) : (∃ a s', r = (.ok a, s')) ↔ P := by
  cases h with
  | ok hP _ => exact iff_of_true ⟨_, _, rfl⟩ hP
  | error hP _ => exact iff_of_false nofun hP

theorem of_ok (h : SucceedsIff s P post failed r) {a : α} (hr : r = (.ok a, s')) : post a := by
  cases h with
  | ok _ ha => cases hr; exact ha
  | error _ _ => cases hr

theorem of_not (h : SucceedsIff s P post failed r) (hP : ¬P) :
    ∃ e, r = (.error e, s) ∧ failed e := by
  cases h with
  | ok hP' _ => exact absurd hP' hP
  | error _ he => exact ⟨_, rfl, he⟩

end SucceedsIff

/-- As `SucceedsIff`, without a state: an answer as `post` says exactly if `P` holds, and otherwise
a failure as `failed` says. -/
inductive AnswersIff (P : Prop) (post : α → Prop) (failed : Error → Prop) : Except Error α → Prop
  | ok {a : α} (hP : P) (ha : post a) : AnswersIff P post failed (.ok a)
  | error {e : Error} (hP : ¬P) (he : failed e) : AnswersIff P post failed (.error e)

namespace AnswersIff

variable {P Q : Prop} {post : α → Prop} {post' : β → Prop} {failed : Error → Prop}
  {x : Except Error α} {f : α → Except Error β}

theorem congr (h : AnswersIff P post failed x) (hPQ : P ↔ Q) : AnswersIff Q post failed x := by
  cases h with
  | ok hP ha => exact .ok (hPQ.1 hP) ha
  | error hP he => exact .error (mt hPQ.2 hP) he

theorem bind (hx : AnswersIff P post failed x)
    (hf : ∀ a, post a → AnswersIff Q post' failed (f a)) :
    AnswersIff (P ∧ Q) post' failed (x >>= f) := by
  cases hx with
  | ok hP ha => exact (hf _ ha).congr (and_iff_right hP).symm
  | error hP he => exact .error (mt And.left hP) he

theorem mono {post₁ : α → Prop} (hx : AnswersIff P post failed x) (h : ∀ a, post a → post₁ a) :
    AnswersIff P post₁ failed x := by
  cases hx with
  | ok hP ha => exact .ok hP (h _ ha)
  | error hP he => exact .error hP he

theorem map (hx : AnswersIff P post failed x) (g : α → β) (hg : ∀ a, post a → post' (g a)) :
    AnswersIff P post' failed (do return g (← x)) := by
  cases hx with
  | ok hP ha => exact .ok hP (hg _ ha)
  | error hP he => exact .error hP he

end AnswersIff

namespace WorkspaceM

variable {w w' : Workspace}

/-- What a computation answers in a workspace, and the workspace afterwards. -/
def on (x : WorkspaceM α) (w : Workspace) : Except Error α × Workspace := x.run.run w

theorem on_change_ok {f : Workspace → Except Error (α × Workspace)} {a : α}
    (h : f w = .ok (a, w')) : on (change f) w = (.ok a, w') := by
  simp only [on, change, ExceptT.run_mk, StateT.run, h]

theorem on_change_error {f : Workspace → Except Error (α × Workspace)} {e : Error}
    (h : f w = .error e) : on (change f) w = (.error e, w) := by
  simp only [on, change, ExceptT.run_mk, StateT.run, h]

theorem on_bind (x : WorkspaceM α) (f : α → WorkspaceM β) (w : Workspace) :
    on (x >>= f) w = match on x w with
      | (.ok a, w') => on (f a) w'
      | (.error e, w') => (.error e, w') := by
  simp only [on, ExceptT.run_bind, StateT.run_bind]
  rcases x.run.run w with ⟨_ | _, _⟩ <;> rfl

theorem on_bind_ok {x : WorkspaceM α} {f : α → WorkspaceM β} {a : α}
    (h : on x w = (.ok a, w')) : on (x >>= f) w = on (f a) w' := by
  rw [on_bind, h]

theorem on_bind_error {x : WorkspaceM α} {f : α → WorkspaceM β} {e : Error}
    (h : on x w = (.error e, w')) : on (x >>= f) w = (.error e, w') := by
  rw [on_bind, h]

/-! ### Failing without a change -/

/-- The computation does not change the workspace if it fails. -/
def Atomic (x : WorkspaceM α) : Prop := ∀ w e, (x.on w).1 = .error e → (x.on w).2 = w

/-- The computation changes nothing if it fails, and otherwise it ends as `post` says of the
workspace before, the answer and the workspace after. -/
def Ensures (x : WorkspaceM α) (post : Workspace → α → Workspace → Prop) : Prop :=
  ∀ w, match x.on w with
    | (.error _, w') => w' = w
    | (.ok a, w') => post w a w'

section Ensures

variable {x : WorkspaceM α} {f : α → WorkspaceM β} {post : Workspace → α → Workspace → Prop}
  {post' : Workspace → β → Workspace → Prop}

theorem Ensures.of_ok (hx : x.Ensures post) {a : α} (h : x.on w = (.ok a, w')) : post w a w' := by
  have hw := hx w
  rw [h] at hw
  exact hw

theorem Ensures.of_error (hx : x.Ensures post) {e : Error} (h : x.on w = (.error e, w')) :
    w' = w := by
  have hw := hx w
  rw [h] at hw
  exact hw

theorem Ensures.atomic (hx : x.Ensures post) : x.Atomic := by
  intro w e h
  exact hx.of_error (Prod.ext h rfl)

theorem Ensures.mono {post₁ : Workspace → α → Workspace → Prop} (hx : x.Ensures post)
    (h : ∀ w a w', post w a w' → post₁ w a w') : x.Ensures post₁ := by
  intro w
  rcases hxw : x.on w with ⟨e | a, w'⟩
  · exact hx.of_error hxw
  · exact h w a w' (hx.of_ok hxw)

theorem ensures_throw (e : Error) : Ensures (throw e) post := fun _ => rfl

theorem ensures_pure {a : α} (h : ∀ w, post w a w) : Ensures (pure a) post := h

theorem ensures_change {g : Workspace → Except Error (α × Workspace)}
    (h : ∀ w a w', g w = .ok (a, w') → post w a w') : Ensures (change g) post := by
  intro w
  cases hg : g w with
  | error e => rw [on_change_error hg]
  | ok p =>
    rw [on_change_ok hg]
    exact h w p.1 p.2 hg

theorem ensures_liftM {y : Except Error α} (h : ∀ a, y = .ok a → ∀ w, post w a w) :
    Ensures (liftM y) post := by
  intro w
  cases y with
  | error e => rfl
  | ok a => exact h a rfl w

/-- What is computed without a look at the workspace may come before. -/
theorem Ensures.liftM_bind (y : Except Error α) (hf : ∀ a, y = .ok a → (f a).Ensures post') :
    Ensures (liftM y >>= f) post' := by
  intro w
  cases y with
  | error e => rfl
  | ok a => exact hf a rfl w

/-- What never fails may come after. -/
theorem Ensures.bind_of_ok (hx : x.Ensures post) (hf : ∀ w a w', post w a w' →
      ∃ b w'', (f a).on w' = (.ok b, w'') ∧ post' w b w'') : Ensures (x >>= f) post' := by
  intro w
  rcases hxw : x.on w with ⟨e | a, w'⟩
  · rw [on_bind_error hxw]
    exact hx.of_error hxw
  · obtain ⟨b, w'', hb, hpost⟩ := hf w a w' (hx.of_ok hxw)
    rw [on_bind_ok hxw, hb]
    exact hpost

theorem Ensures.bind_pure (hx : x.Ensures post) (g : α → β)
    (h : ∀ w a w', post w a w' → post' w (g a) w') : Ensures (do return g (← x)) post' :=
  hx.bind_of_ok fun w a w' ha => ⟨g a, w', rfl, h w a w' ha⟩

end Ensures

end WorkspaceM

namespace SessionM

variable {s s' : Session}

/-- What a computation answers in a session, and the session afterwards. -/
def on (x : SessionM α) (s : Session) : Except Error α × Session := x.run.run s

theorem on_context? (s : Session) : on context? s = (.ok s.context?, s) := rfl

theorem on_liftM_workspace (x : WorkspaceM α) (s : Session) :
    on (liftM x : SessionM α) s =
      ((x.on s.workspace).1, { s with workspace := (x.on s.workspace).2 }) := rfl

theorem on_bind (x : SessionM α) (f : α → SessionM β) (s : Session) :
    on (x >>= f) s = match on x s with
      | (.ok a, s') => on (f a) s'
      | (.error e, s') => (.error e, s') := by
  simp only [on, ExceptT.run_bind, StateT.run_bind]
  rcases x.run.run s with ⟨_ | _, _⟩ <;> rfl

theorem on_bind_ok {x : SessionM α} {f : α → SessionM β} {a : α}
    (h : on x s = (.ok a, s')) : on (x >>= f) s = on (f a) s' := by
  rw [on_bind, h]

theorem on_bind_error {x : SessionM α} {f : α → SessionM β} {e : Error}
    (h : on x s = (.error e, s')) : on (x >>= f) s = (.error e, s') := by
  rw [on_bind, h]

/-- Where each part leaves the active context in place, the whole does. -/
theorem context?_on_bind {x : SessionM α} {f : α → SessionM β} {c : Option LanguageContext}
    (hx : (x.on s).2.context? = c)
    (hf : ∀ a s', s'.context? = c → ((f a).on s').2.context? = c) :
    ((x >>= f).on s).2.context? = c := by
  rw [on_bind]
  rcases hxs : x.on s with ⟨e | a, s'⟩ <;> rw [hxs] at hx
  · exact hx
  · exact hf a s' hx

theorem on_liftM_bind_pure (x : Except Error α) (f : α → β) (s : Session) :
    on (do return f (← x)) s = (f <$> x, s) := by
  cases x <;> rfl

/-! ### Failures that are caught -/

theorem on_bind_attempt (x : SessionM α) (f : Except Error α → SessionM β) (s : Session) :
    on (do f (← x.attempt)) s = (f (x.on s).1).on (x.on s).2 := rfl

theorem run_bind_attempt (x : SessionM α) (f : Except Error α → StateM Session β) (s : Session) :
    StateT.run (do f (← x.attempt)) s = (f (x.on s).1).run (x.on s).2 := rfl

/-! ### Failing without a change, or ending as described -/

/-- In the session `s` the computation changes nothing if it fails, and otherwise it leaves the
contexts alone and the workspace as `post` says. -/
def Ensures (x : SessionM α) (s : Session) (post : Workspace → α → Workspace → Prop) : Prop :=
  match x.on s with
  | (.error _, s') => s' = s
  | (.ok a, s') => s'.contexts = s.contexts ∧ post s.workspace a s'.workspace

section Ensures

variable {x : SessionM α} {f : α → SessionM β} {post : Workspace → α → Workspace → Prop}
  {post' : Workspace → β → Workspace → Prop}

theorem Ensures.of_ok (hx : x.Ensures s post) {a : α} (h : x.on s = (.ok a, s')) :
    s'.contexts = s.contexts ∧ post s.workspace a s'.workspace := by
  rw [Ensures, h] at hx
  exact hx

theorem Ensures.of_error (hx : x.Ensures s post) {e : Error} (h : x.on s = (.error e, s')) :
    s' = s := by
  rw [Ensures, h] at hx
  exact hx

theorem Ensures.mono {post₁ : Workspace → α → Workspace → Prop} (hx : x.Ensures s post)
    (h : ∀ w a w', post w a w' → post₁ w a w') : x.Ensures s post₁ := by
  rw [Ensures] at hx ⊢
  split at hx
  · exact hx
  · exact ⟨hx.1, h _ _ _ hx.2⟩

/-- A computation that leaves the contexts alone if it succeeds leaves the active one in place. -/
theorem Ensures.context?_on (hx : x.Ensures s post) : (x.on s).2.context? = s.context? := by
  rcases hxs : x.on s with ⟨e | a, s'⟩
  · rw [hx.of_error hxs]
  · exact congrArg List.head? (hx.of_ok hxs).1

theorem ensures_of_workspace {y : WorkspaceM α} (hy : y.Ensures post) :
    Ensures (liftM y : SessionM α) s post := by
  rw [Ensures, on_liftM_workspace]
  rcases hyw : y.on s.workspace with ⟨e | a, w'⟩
  · rw [hy.of_error hyw]
  · exact ⟨rfl, hy.of_ok hyw⟩

theorem ensures_throw (e : Error) : Ensures (throw e : SessionM α) s post := rfl

theorem ensures_pure {a : α} (h : post s.workspace a s.workspace) : Ensures (pure a) s post :=
  ⟨rfl, h⟩

theorem ensures_liftM {y : Except Error α}
    (h : ∀ a, y = .ok a → post s.workspace a s.workspace) :
    Ensures (liftM y : SessionM α) s post := by
  cases y with
  | error e => rfl
  | ok a => exact ⟨rfl, h a rfl⟩

theorem Ensures.liftM_bind (y : Except Error α)
    (hf : ∀ a, y = .ok a → (f a).Ensures s post') : Ensures (liftM y >>= f) s post' := by
  cases y with
  | error e => rfl
  | ok a => exact hf a rfl

theorem ensures_context?_bind {f : Option LanguageContext → SessionM β}
    (hf : (f s.context?).Ensures s post') : Ensures (context? >>= f) s post' := hf

theorem ensures_bind_pure_iff (g : α → β) :
    Ensures (do return g (← x)) s post' ↔ x.Ensures s fun w a w' => post' w (g a) w' := by
  rw [Ensures, on_bind, Ensures]
  rcases x.on s with ⟨e | a, s'⟩ <;> rfl

theorem Ensures.bind_pure (hx : x.Ensures s post) (g : α → β)
    (h : ∀ w a w', post w a w' → post' w (g a) w') : Ensures (do return g (← x)) s post' :=
  (ensures_bind_pure_iff g).2 (hx.mono h)

end Ensures

/-! ### Two runs of the same outcome -/

/-- From the session `s` both computations end in the same session, with the same failure or with
answers of which `g` makes the same. -/
inductive AgreeAt {γ : Type} (g : α → γ) (x y : SessionM α) (s : Session) : Prop
  | ok {a b : α} {s' : Session} (hx : x.on s = (.ok a, s')) (hy : y.on s = (.ok b, s'))
    (hab : g a = g b)
  | error {e : Error} {s' : Session} (hx : x.on s = (.error e, s')) (hy : y.on s = (.error e, s'))

section AgreeAt

variable {γ δ : Type} {g : α → γ} {h : β → δ} {x y : SessionM α} {f f' : α → SessionM β}

theorem AgreeAt.of_on_eq (hxy : x.on s = y.on s) : AgreeAt g x y s := by
  rcases hx : x.on s with ⟨e | a, s'⟩
  · exact .error hx (hxy.symm.trans hx)
  · exact .ok hx (hxy.symm.trans hx) rfl

theorem AgreeAt.of_on_eq_on {x' y' : SessionM α} (hx : x.on s = x'.on s') (hy : y.on s = y'.on s')
    (hxy : AgreeAt g x' y' s') : AgreeAt g x y s := by
  cases hxy with
  | ok hx' hy' hab => exact .ok (hx.trans hx') (hy.trans hy') hab
  | error hx' hy' => exact .error (hx.trans hx') (hy.trans hy')

theorem AgreeAt.symm (hxy : AgreeAt g x y s) : AgreeAt g y x s := by
  cases hxy with
  | ok hx hy hab => exact .ok hy hx hab.symm
  | error hx hy => exact .error hy hx

theorem agreeAt_pure {a b : α} (hab : g a = g b) : AgreeAt g (pure a) (pure b) s :=
  .ok rfl rfl hab

theorem agreeAt_iff :
    AgreeAt g x y s ↔ g <$> (x.on s).1 = g <$> (y.on s).1 ∧ (x.on s).2 = (y.on s).2 := by
  constructor
  · rintro (⟨hx, hy, hab⟩ | ⟨hx, hy⟩)
    · rw [hx, hy]
      exact ⟨congrArg Except.ok hab, rfl⟩
    · rw [hx, hy]
      exact ⟨rfl, rfl⟩
  · rintro ⟨hanswer, hsession⟩
    rcases hx : x.on s with ⟨e | a, s'⟩ <;> rcases hy : y.on s with ⟨e' | b, s''⟩ <;>
      rw [hx, hy] at hanswer hsession <;> obtain rfl : s' = s'' := hsession
    · cases hanswer
      exact .error hx hy
    · cases hanswer
    · cases hanswer
    · exact .ok hx hy (Except.ok.inj hanswer)

theorem AgreeAt.trans {z : SessionM α} (hxy : AgreeAt g x y s) (hyz : AgreeAt g y z s) :
    AgreeAt g x z s := by
  obtain ⟨hanswer, hsession⟩ := agreeAt_iff.1 hxy
  obtain ⟨hanswer', hsession'⟩ := agreeAt_iff.1 hyz
  exact agreeAt_iff.2 ⟨hanswer.trans hanswer', hsession.trans hsession'⟩

theorem agreeAt_liftM {u v : Except Error α} (huv : g <$> u = g <$> v) :
    AgreeAt g (liftM u) (liftM v) s := agreeAt_iff.2 ⟨huv, rfl⟩

theorem agreeAt_liftM_workspace {y z : WorkspaceM α} (hyz : g <$> y = g <$> z) :
    AgreeAt g (liftM y) (liftM z) s := by
  have hmap (x : WorkspaceM α) (w : Workspace) :
      (g <$> x).on w = (g <$> (x.on w).1, (x.on w).2) := by
    rw [map_eq_pure_bind, WorkspaceM.on_bind]
    rcases x.on w with ⟨_ | _, _⟩ <;> rfl
  have hon := hmap y s.workspace
  rw [hyz, hmap, Prod.mk.injEq] at hon
  rw [agreeAt_iff, on_liftM_workspace, on_liftM_workspace, hon.1, hon.2]
  exact ⟨rfl, rfl⟩

theorem AgreeAt.bind (hxy : AgreeAt g x y s) (hf : ∀ a b s', x.on s = (.ok a, s') → g a = g b →
      AgreeAt h (f a) (f' b) s') : AgreeAt h (x >>= f) (y >>= f') s := by
  cases hxy with
  | error hx hy => exact .error (on_bind_error hx) (on_bind_error hy)
  | ok hx hy hab =>
    cases hf _ _ _ hx hab with
    | error hfa hfb => exact .error ((on_bind_ok hx).trans hfa) ((on_bind_ok hy).trans hfb)
    | ok hfa hfb hab' => exact .ok ((on_bind_ok hx).trans hfa) ((on_bind_ok hy).trans hfb) hab'

/-- What comes after an attempt, be it an answer or a failure. -/
theorem AgreeAt.bind_attempt {f f' : Except Error α → SessionM β} (hxy : AgreeAt g x y s)
    (hok : ∀ a b s', x.on s = (.ok a, s') → g a = g b → AgreeAt h (f (.ok a)) (f' (.ok b)) s')
    (herror : ∀ e s', x.on s = (.error e, s') → AgreeAt h (f (.error e)) (f' (.error e)) s') :
    AgreeAt h (do f (← x.attempt)) (do f' (← y.attempt)) s := by
  have hattempt {x : SessionM α} {f : Except Error α → SessionM β} {outcome : Except Error α}
      {s' : Session} (hx : x.on s = (outcome, s')) :
      on (do f (← x.attempt)) s = (f outcome).on s' := by
    rw [on_bind_attempt, hx]
  cases hxy with
  | ok hx hy hab => exact .of_on_eq_on (hattempt hx) (hattempt hy) (hok _ _ _ hx hab)
  | error hx hy => exact .of_on_eq_on (hattempt hx) (hattempt hy) (herror _ _ hx)

end AgreeAt

end SessionM

end ProxyTrace
