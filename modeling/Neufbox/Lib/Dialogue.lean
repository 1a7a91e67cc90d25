import Neufbox.Lib.Run

/-!
# Programs that talk to a server

A `Dialogue Q A E R` sends requests of the type `Q` to a server, one at a time, and goes on with the
answer (of the type `A q` for the request `q`).  On the way it reports events of the type `E`, and
it ends with a result of the type `R`.

`Ran d items r` says that `d` can have the exchanges and events `items` and end with `r`; the
answers are any.  `d.Obeys J post past` is the condition on `d`, after `past`, that every request
and every event is allowed by `J` in view of what went before, and that `post` holds in the end.

* `obeys_bind`, `Obeys.mono`: how to establish it for the parts of a program;
* `Ran.justified`: what it says of every run.

A `Monitor` follows a run with a state of its own: it says what may be relied on when the server
answers and what is demanded of the program.  `d.Keeps m post s` is the condition on `d`, from the
state `s` on, that it does what is demanded and that `post` holds in the end
(`keeps_bind`, `Keeps.mono`, `Ran.kept`).

The server answers one request at a time; `settle` is the part of a program up to its next request.
-/

namespace Neufbox

/-- A program that sends requests and reports events. -/
inductive Dialogue (Q : Type) (A : Q → Type) (E R : Type) where
  | done (r : R)
  | tell (e : E) (rest : Dialogue Q A E R)
  | ask (q : Q) (next : A q → Dialogue Q A E R)

namespace Dialogue

open Machine

variable {Q : Type} {A : Q → Type} {E R S : Type}

/-- A program and then another, which depends on the result. -/
def bind : Dialogue Q A E R → (R → Dialogue Q A E S) → Dialogue Q A E S
  | done r, f => f r
  | tell e rest, f => tell e (rest.bind f)
  | ask q next, f => ask q fun a => (next a).bind f

/-- The result when every request has a fixed answer. -/
def result (answer : (q : Q) → A q) : Dialogue Q A E R → R
  | done r => r
  | tell _ rest => rest.result answer
  | ask q next => (next (answer q)).result answer

theorem result_bind (answer : (q : Q) → A q) (d : Dialogue Q A E R) (f : R → Dialogue Q A E S) :
    (d.bind f).result answer = (f (d.result answer)).result answer := by
  induction d with
  | done r => rfl
  | tell e rest ih => exact ih
  | ask q next ih => exact ih _

/-! ### Traces -/

/-- What a program does next. -/
inductive Move (Q E : Type) where
  | ask (q : Q)
  | tell (e : E)

/-- A request with its answer, or an event. -/
inductive Item {Q : Type} (A : Q → Type) (E : Type) where
  | asked (q : Q) (a : A q)
  | told (e : E)

def Item.move : Item A E → Move Q E
  | asked q _ => .ask q
  | told e => .tell e

/-- The traces of a program, with its results. -/
inductive Ran : Dialogue Q A E R → List (Item A E) → R → Prop
  | done (r) : Ran (.done r) [] r
  | tell (e rest items r) (h : Ran rest items r) : Ran (.tell e rest) (.told e :: items) r
  | ask (q next a items r) (h : Ran (next a) items r) :
      Ran (.ask q next) (.asked q a :: items) r

/-- The trace when every request has a fixed answer. -/
def trace (answer : (q : Q) → A q) : Dialogue Q A E R → List (Item A E)
  | done _ => []
  | tell e rest => .told e :: rest.trace answer
  | ask q next => .asked q (answer q) :: (next (answer q)).trace answer

theorem ran_trace (answer : (q : Q) → A q) (d : Dialogue Q A E R) :
    Ran d (d.trace answer) (d.result answer) := by
  induction d with
  | done r => exact .done r
  | tell e rest ih => exact .tell e rest _ _ ih
  | ask q next ih => exact .ask q next _ _ _ (ih _)

theorem trace_bind (answer : (q : Q) → A q) (d : Dialogue Q A E R) (f : R → Dialogue Q A E S) :
    (d.bind f).trace answer = d.trace answer ++ (f (d.result answer)).trace answer := by
  induction d with
  | done r => rfl
  | tell e rest ih => exact congrArg (.told e :: ·) ih
  | ask q next ih => exact congrArg (.asked q (answer q) :: ·) (ih _)

/-- After `past`, every move is allowed by `J`, and `post` holds in the end. -/
def Obeys (J : List (Item A E) → Move Q E → Prop) (post : R → List (Item A E) → Prop)
    (past : List (Item A E)) : Dialogue Q A E R → Prop
  | done r => post r past
  | tell e rest => J past (.tell e) ∧ rest.Obeys J post (past ++ [.told e])
  | ask q next => J past (.ask q) ∧ ∀ a, (next a).Obeys J post (past ++ [.asked q a])

variable {J : List (Item A E) → Move Q E → Prop} {past items : List (Item A E)}

theorem obeys_bind {post : S → List (Item A E) → Prop} {d : Dialogue Q A E R}
    {f : R → Dialogue Q A E S} :
    (d.bind f).Obeys J post past ↔ d.Obeys J (fun r past => (f r).Obeys J post past) past := by
  induction d generalizing past with
  | done r => exact Iff.rfl
  | tell e rest ih => exact and_congr_right fun _ => ih
  | ask q next ih => exact and_congr_right fun _ => forall_congr' fun a => ih a

/-- A branch, whose condition is not computed. -/
theorem obeys_ite {post : R → List (Item A E) → Prop} {c : Prop} [Decidable c]
    {d d' : Dialogue Q A E R} (hpos : c → d.Obeys J post past)
    (hneg : ¬c → d'.Obeys J post past) : (if c then d else d').Obeys J post past := by
  split_ifs with hc
  · exact hpos hc
  · exact hneg hc

theorem Obeys.mono {post post' : R → List (Item A E) → Prop} {d : Dialogue Q A E R}
    (hpost : ∀ r past, post r past → post' r past) (h : d.Obeys J post past) :
    d.Obeys J post' past := by
  induction d generalizing past with
  | done r => exact hpost r past h
  | tell e rest ih => exact ⟨h.1, ih h.2⟩
  | ask q next ih => exact ⟨h.1, fun a => ih a (h.2 a)⟩

variable {post : R → List (Item A E) → Prop} {d : Dialogue Q A E R} {r : R}

/-- The first move is allowed, and so are the others after it. -/
theorem allowed_cons {i : Item A E} (hi : J past i.move)
    (hitems : ∀ before item after, items = before ++ item :: after →
      J (past ++ [i] ++ before) item.move) (before : List (Item A E)) (item : Item A E)
    (after : List (Item A E)) (heq : i :: items = before ++ item :: after) :
    J (past ++ before) item.move := by
  cases before with
  | nil =>
    obtain rfl := (List.cons.inj heq).1
    rwa [List.append_nil]
  | cons j before =>
    obtain ⟨rfl, htail⟩ := List.cons.inj heq
    rw [List.append_cons]
    exact hitems before item after htail

/-- Every move of a run is allowed by what went before. -/
theorem Ran.allowed (hran : Ran d items r) (h : d.Obeys J post past) (before : List (Item A E))
    (item : Item A E) (after : List (Item A E)) (heq : items = before ++ item :: after) :
    J (past ++ before) item.move := by
  induction hran generalizing past before item after with
  | done r => exact absurd heq (by simp)
  | tell e rest items r _ ih => exact allowed_cons h.1 (ih h.2) before item after heq
  | ask q next a items r _ ih => exact allowed_cons h.1 (ih (h.2 a)) before item after heq

/-- The trace of a run from the start is justified. -/
theorem Ran.justified (hran : Ran d items r) (h : d.Obeys J post []) :
    Justified (fun before item => J before item.move) items :=
  fun before item after heq => hran.allowed h before item after heq

/-! ### Monitors -/

/-- A monitor with states of the type `σ`. -/
structure Monitor {Q : Type} (A : Q → Type) (E σ : Type) where
  next : σ → Item A E → σ
  /-- What the server keeps to. -/
  rely : (s : σ) → (q : Q) → A q → Prop
  /-- What the program has to keep to. -/
  demand : σ → Move Q E → Prop

variable {σ : Type} {m : Monitor A E σ} {s : σ}

/-- From the state `s` on, every move is as demanded, and `post` holds in the end. -/
def Keeps (m : Monitor A E σ) (post : R → σ → Prop) (s : σ) : Dialogue Q A E R → Prop
  | done r => post r s
  | tell e rest => m.demand s (.tell e) ∧ rest.Keeps m post (m.next s (.told e))
  | ask q next => m.demand s (.ask q) ∧
      ∀ a, m.rely s q a → (next a).Keeps m post (m.next s (.asked q a))

theorem keeps_bind {post : S → σ → Prop} {d : Dialogue Q A E R} {f : R → Dialogue Q A E S} :
    (d.bind f).Keeps m post s ↔ d.Keeps m (fun r s => (f r).Keeps m post s) s := by
  induction d generalizing s with
  | done r => exact Iff.rfl
  | tell e rest ih => exact and_congr_right fun _ => ih
  | ask q next ih =>
    exact and_congr_right fun _ => forall_congr' fun a => imp_congr_right fun _ => ih a

theorem Keeps.mono {post post' : R → σ → Prop} {d : Dialogue Q A E R}
    (hpost : ∀ r s, post r s → post' r s) (h : d.Keeps m post s) : d.Keeps m post' s := by
  induction d generalizing s with
  | done r => exact hpost r s h
  | tell e rest ih => exact ⟨h.1, ih h.2⟩
  | ask q next ih => exact ⟨h.1, fun a ha => ih a (h.2 a ha)⟩

/-- The server kept to what is relied on. -/
def Served (m : Monitor A E σ) : σ → List (Item A E) → Prop
  | _, [] => True
  | s, .asked q a :: items => m.rely s q a ∧ Served m (m.next s (.asked q a)) items
  | s, .told e :: items => Served m (m.next s (.told e)) items

/-- The program kept to what is demanded. -/
def Kept (m : Monitor A E σ) : σ → List (Item A E) → Prop
  | _, [] => True
  | s, item :: items => m.demand s item.move ∧ Kept m (m.next s item) items

/-- What a run is like, and the state in the end. -/
theorem Ran.kept {post : R → σ → Prop} (hran : Ran d items r) (h : d.Keeps m post s)
    (hserved : Served m s items) : Kept m s items ∧ post r (items.foldl m.next s) := by
  induction hran generalizing s with
  | done r => exact ⟨trivial, h⟩
  | tell e rest items r _ ih =>
    obtain ⟨hkept, hpost⟩ := ih h.2 hserved
    exact ⟨⟨h.1, hkept⟩, hpost⟩
  | ask q next a items r _ ih =>
    obtain ⟨hkept, hpost⟩ := ih (h.2 a hserved.1) hserved.2
    exact ⟨⟨h.1, hkept⟩, hpost⟩

theorem kept_append {items₁ items₂ : List (Item A E)} :
    Kept m s (items₁ ++ items₂) ↔ Kept m s items₁ ∧ Kept m (items₁.foldl m.next s) items₂ := by
  induction items₁ generalizing s with
  | nil => exact (and_iff_right trivial).symm
  | cons item items₁ ih => exact (and_congr_right fun _ => ih).trans and_assoc.symm

/-- What was demanded at an item of a run. -/
theorem Kept.demand_of_mem (h : Kept m s items) {item : Item A E} (hitem : item ∈ items) :
    ∃ before after, items = before ++ item :: after ∧
      m.demand (before.foldl m.next s) item.move := by
  obtain ⟨before, after, rfl⟩ := List.append_of_mem hitem
  rw [kept_append] at h
  exact ⟨before, after, rfl, h.2.1⟩

/-- A server all of whose answers are as relied on, in any state. -/
theorem served_of_forall (h : ∀ q a, .asked q a ∈ items → ∀ s, m.rely s q a) :
    Served m s items := by
  induction items generalizing s with
  | nil => trivial
  | cons item items ih =>
    have htail : ∀ s, Served m s items :=
      fun s => ih fun q a hmem => h q a (List.mem_cons_of_mem _ hmem)
    cases item with
    | asked q a => exact ⟨h q a (List.mem_cons_self ..) s, htail _⟩
    | told e => exact htail _

/-! ### Another server -/

/-- The program on a server with more requests, which reports events of another type: the request
`q` is sent as `f q`, and the event `e` is reported as `h e`. -/
def embed {Q' : Type} {A' : Q' → Type} {E' : Type} (f : Q → Q') (g : ∀ q, A' (f q) → A q)
    (h : E → E') : Dialogue Q A E R → Dialogue Q' A' E' R
  | done r => done r
  | tell e rest => tell (h e) (rest.embed f g h)
  | ask q next => ask (f q) fun a => (next (g q a)).embed f g h

theorem embed_bind {Q' : Type} {A' : Q' → Type} {E' : Type} (f : Q → Q')
    (g : ∀ q, A' (f q) → A q) (h : E → E') (d : Dialogue Q A E R) (k : R → Dialogue Q A E S) :
    (d.bind k).embed f g h = (d.embed f g h).bind fun r => (k r).embed f g h := by
  induction d with
  | done r => rfl
  | tell e rest ih => exact congrArg (tell (h e)) ih
  | ask q next ih => exact congrArg (ask (f q)) (funext fun a => ih (g q a))

theorem result_embed {Q' : Type} {A' : Q' → Type} {E' : Type} (f : Q → Q')
    (g : ∀ q, A' (f q) → A q) (h : E → E') (answer : (q : Q') → A' q) (d : Dialogue Q A E R) :
    (d.embed f g h).result answer = d.result fun q => g q (answer (f q)) := by
  induction d with
  | done r => rfl
  | tell e rest ih => exact ih
  | ask q next ih => exact ih _

/-- A program that is on another server, where all its requests are allowed. -/
theorem obeys_embed {Q' : Type} {A' : Q' → Type} {E' : Type} {f : Q → Q'}
    {g : ∀ q, A' (f q) → A q} {h : E → E'} {J' : List (Item A' E') → Move Q' E' → Prop}
    {P : R → Prop} (hask : ∀ past q, J' past (.ask (f q))) (htell : ∀ past e, J' past (.tell (h e)))
    {past' : List (Item A' E')} (hd : d.Obeys J (fun r _ => P r) past) :
    (d.embed f g h).Obeys J' (fun r _ => P r) past' := by
  induction d generalizing past past' with
  | done r => exact hd
  | tell e rest ih => exact ⟨htell past' e, ih hd.2⟩
  | ask q next ih => exact ⟨hask past' q, fun a => ih (g q a) (hd.2 (g q a))⟩

/-! ### Between two requests -/

/-- The events up to the next request, and the program from there. -/
def settle : Dialogue Q A E R → List E × Dialogue Q A E R
  | done r => ([], done r)
  | tell e rest => (e :: rest.settle.1, rest.settle.2)
  | ask q next => ([], ask q next)

end Dialogue

end Neufbox
