import Mediaops.Arr.Server

namespace Mediaops.Arr

-- Runs that change one list of one server, with what they keep of the others and of the
-- log of requests.

-- The list of a server that a run is about. `still` says that nothing is left to write.
structure Scene where
  app : App
  resource : Resource
  others : App → Server
  still : Prop

namespace Scene

variable (scene : Scene)

def servers (items : List Json) : App → Server :=
  Function.update scene.others scene.app ((scene.others scene.app).put scene.resource items)

def At (Q : List Json → Prop) (net : Net) : Prop :=
  ∃ items, net.servers = scene.servers items ∧ Q items ∧ (scene.still → ReadOnly net.log)

def Halted (I : List Json → Prop) (net : Net) : Prop := scene.At I net ∧ Refused net.log

abbrev Runs {ε α : Type} (I Q : List Json → Prop) (m : Prog Net ε α) (A : α → List Json → Prop) : Prop :=
  Served False (scene.At Q) m (fun a => scene.At (A a)) (scene.Halted I)

@[simp] theorem servers_app (items : List Json) :
    scene.servers items scene.app = (scene.others scene.app).put scene.resource items :=
  Function.update_self _ _ _

theorem servers_update (items items' : List Json) :
    Function.update (scene.servers items) scene.app
      ((scene.others scene.app).put scene.resource items') = scene.servers items' :=
  Function.update_idem _ _ _

end Scene

section Logs

theorem readOnly_get {log : List Exchange} (h : ReadOnly log) (app : App) (target : Target)
    (status : Option Nat) : ReadOnly (log ++ [⟨app, { method := .Get, target }, status⟩]) := by
  intro exchange hexchange
  rcases List.mem_append.mp hexchange with hexchange | hexchange
  · exact h exchange hexchange
  · rw [List.mem_singleton.mp hexchange]

theorem refused_none (log : List Exchange) (app : App) (request : Request) :
    Refused (log ++ [⟨app, request, none⟩]) :=
  ⟨_, List.mem_append_right _ List.mem_cons_self, fun _ h => by cases h⟩

theorem refused_some (log : List Exchange) (app : App) (request : Request) {status : Nat}
    (h : 400 ≤ status) : Refused (log ++ [⟨app, request, some status⟩]) := by
  refine ⟨_, List.mem_append_right _ List.mem_cons_self, ?_⟩
  rintro _ ⟨⟩
  exact h

end Logs

section Rules

variable {scene : Scene} {ε α β : Type} {I Q : List Json → Prop}

theorem scene_pure {a : α} {A : α → List Json → Prop} (h : ∀ items, Q items → A a items) :
    scene.Runs I Q (pure a : Prog Net ε α) A :=
  runs_pure fun _ ⟨items, hnet, hq, hlog⟩ => ⟨items, hnet, h items hq, hlog⟩

theorem scene_mono {Q' : List Json → Prop} {m : Prog Net ε α} {A A' : α → List Json → Prop}
    (h : scene.Runs I Q m A) (hpre : ∀ items, Q' items → Q items)
    (hpost : ∀ a items, A a items → A' a items) : scene.Runs I Q' m A' :=
  h.mono (fun _ ⟨items, hnet, hq, hlog⟩ => ⟨items, hnet, hpre items hq, hlog⟩)
    (fun a _ ⟨items, hnet, ha, hlog⟩ => ⟨items, hnet, hpost a items ha, hlog⟩) fun _ h => h

theorem scene_of_pre {m : Prog Net ε α} {A : α → List Json → Prop} {p : Prop} (hp : ∀ items, Q items → p)
    (h : p → scene.Runs I Q m A) : scene.Runs I Q m A :=
  Runs.of_pre (fun _ ⟨items, _, hq, _⟩ => hp items hq) h

theorem scene_exists {ι : Type} {m : Prog Net ε α} {A : α → List Json → Prop} {Q : ι → List Json → Prop}
    (h : ∀ i, scene.Runs I (Q i) m A) : scene.Runs I (fun items => ∃ i, Q i items) m A := by
  rintro past net ⟨items, hnet, ⟨i, hq⟩, hlog⟩
  exact h i past net ⟨items, hnet, hq, hlog⟩

theorem scene_bind {m : Prog Net ε α} {f : α → Prog Net ε β} {A : α → List Json → Prop}
    {B : β → List Json → Prop} (h : scene.Runs I Q m A) (hf : ∀ a, scene.Runs I (A a) (f a) B) :
    scene.Runs I Q (m >>= f) B :=
  Runs.bind h hf

theorem scene_forEach {part : α → Prog Net ε (List β)} (P : List α → List Json → Prop)
    (h : ∀ item rest, scene.Runs I (P (item :: rest)) (part item) fun _ => P rest) (items : List α) :
    scene.Runs I (P items) (forEach part items) fun _ => P [] :=
  served_forEach (fun rest => scene.At (P rest)) h items

-- What cannot be an error goes on.
theorem scene_lift {x : Except ε α} {a : α} (h : x = .ok a) :
    scene.Runs I Q (Prog.lift x) fun b items => b = a ∧ Q items := by
  subst h
  exact scene_pure fun _ hq => ⟨rfl, hq⟩

theorem scene_orPanic {x : Option α} {a : α} (h : x = some a) :
    scene.Runs I Q (orPanic x) fun b items => b = a ∧ Q items := by
  subst h
  exact scene_pure fun _ hq => ⟨rfl, hq⟩

-- A reading of the list or of one object of it; an object that is not there is refused.
theorem scene_get {target : Target} (read : List Json → Option Json)
    (hserve : ∀ items pick, ((scene.others scene.app).put scene.resource items).serve pick
        { method := .Get, target } =
      ((match read items with
        | some value => { status := 200, body := some value }
        | none => { status := 404 }), (scene.others scene.app).put scene.resource items))
    (hI : ∀ items, Q items → I items) :
    scene.Runs I Q (getJson scene.app target) fun value items => read items = some value ∧ Q items := by
  have hdeliver : ∀ items pick, deliver scene.app { method := .Get, target } pick (scene.servers items) =
      ((match read items with
        | some value => { status := 200, body := some value }
        | none => { status := 404 }), scene.servers items) := by
    intro items pick
    rw [deliver, scene.servers_app, hserve]
    exact congrArg _ (scene.servers_update items items)
  apply served_json
  · rintro ⟨_, log⟩ pick ⟨items, rfl, hq, hlog⟩
    dsimp only
    rw [hdeliver]
    cases hread : read items with
    | some value =>
        exact ⟨items, rfl, ⟨hread, hq⟩, fun hstill => readOnly_get (hlog hstill) _ _ _⟩
    | none =>
        exact ⟨⟨items, rfl, hI items hq, fun hstill => readOnly_get (hlog hstill) _ _ _⟩,
          refused_some _ _ _ (by decide : 400 ≤ 404)⟩
  · rintro - ⟨_, log⟩ ⟨items, rfl, hq, hlog⟩
    have hhalted : scene.Halted I ⟨scene.servers items, log ++ [⟨scene.app, { method := .Get, target }, none⟩]⟩ :=
      ⟨⟨items, rfl, hI items hq, fun hstill => readOnly_get (hlog hstill) _ _ _⟩, refused_none _ _ _⟩
    refine ⟨hhalted, fun pick => ?_⟩
    dsimp only
    rw [hdeliver]
    exact hhalted

-- A request that writes, where something is left to write: it is refused, or the list
-- becomes one of those after it.
theorem scene_write {request : Request} {A : Json → List Json → Prop} (hstill : ¬scene.still)
    (hI : ∀ items, Q items → I items)
    (hserve : ∀ items pick answer, Q items →
      ((scene.others scene.app).put scene.resource items).serve pick request = answer →
      (400 ≤ answer.1.status ∧ answer.2 = (scene.others scene.app).put scene.resource items) ∨
        (answer.1.status < 400 ∧ ∃ items', answer.2 = (scene.others scene.app).put scene.resource items' ∧
          I items' ∧ A (answer.1.body.getD .Null) items')) :
    scene.Runs I Q (json scene.app request) A := by
  have hservers : ∀ items pick, (deliver scene.app request pick (scene.servers items)).2 =
      Function.update (scene.servers items) scene.app
        (((scene.others scene.app).put scene.resource items).serve pick request).2 := by
    intro items pick
    rw [← scene.servers_app items]
    rfl
  have hstatus : ∀ items pick, (deliver scene.app request pick (scene.servers items)).1 =
      (((scene.others scene.app).put scene.resource items).serve pick request).1 := by
    intro items pick
    rw [← scene.servers_app items]
    rfl
  have hlog : ∀ log, scene.still → ReadOnly log := fun _ h => absurd h hstill
  apply served_json
  · rintro ⟨_, log⟩ pick ⟨items, rfl, hq, -⟩
    dsimp only
    rw [hservers, hstatus]
    rcases hserve items pick _ hq rfl with ⟨hrefused, hsame⟩ | ⟨hserved, items', hafter, hi, ha⟩
    · rw [if_pos hrefused, hsame, scene.servers_update]
      exact ⟨⟨items, rfl, hI items hq, hlog _⟩, refused_some _ _ _ hrefused⟩
    · rw [if_neg (Nat.not_le_of_lt hserved), hafter, scene.servers_update]
      exact ⟨items', rfl, ha, hlog _⟩
  · rintro - ⟨_, log⟩ ⟨items, rfl, hq, -⟩
    refine ⟨⟨⟨items, rfl, hI items hq, hlog _⟩, refused_none _ _ _⟩, fun pick => ?_⟩
    dsimp only
    rw [hservers]
    rcases hserve items pick _ hq rfl with ⟨-, hsame⟩ | ⟨-, items', hafter, hi, -⟩
    · rw [hsame, scene.servers_update]
      exact ⟨⟨items, rfl, hI items hq, hlog _⟩, refused_none _ _ _⟩
    · rw [hafter, scene.servers_update]
      exact ⟨⟨items', rfl, hi, hlog _⟩, refused_none _ _ _⟩

end Rules

section Requests

variable {scene : Scene} {I Q : List Json → Prop}

theorem scene_getAll (hI : ∀ items, Q items → I items) :
    scene.Runs I Q (getJson scene.app (.All scene.resource))
      fun value items => value = .Array items ∧ Q items := by
  apply scene_mono (scene_get (fun items => some (.Array items)) ?_ hI) (fun _ h => h)
  · rintro value items ⟨hvalue, hq⟩
    exact ⟨(Option.some.inj hvalue).symm, hq⟩
  · intro items pick
    simp [Server.serve]

theorem scene_getOne {id : Int} (hI : ∀ items, Q items → I items) :
    scene.Runs I Q (getJson scene.app (.One scene.resource id))
      fun value items => (items.find? fun item => idOf item = some id) = some value ∧ Q items := by
  apply scene_get (fun items => items.find? fun item => idOf item = some id) ?_ hI
  intro items pick
  simp only [Server.serve, Server.items_put]
  cases items.find? fun item => idOf item = some id <;> rfl

theorem scene_putOne {id : Int} {body : Json} {A : Json → List Json → Prop} (hstill : ¬scene.still)
    (hI : ∀ items, Q items → I items)
    (hafter : ∀ items, Q items → some id ∈ items.map idOf →
      I (items.map fun item => if idOf item = some id then body else item) ∧
        A body (items.map fun item => if idOf item = some id then body else item)) :
    scene.Runs I Q (putJson scene.app (.One scene.resource id) body) A := by
  apply scene_write hstill hI
  rintro items pick _ hq rfl
  simp only [Server.serve, Server.items_put, Server.put_put]
  by_cases hid : some id ∈ items.map idOf
  · rw [if_pos hid]
    exact Or.inr ⟨(by decide : 202 < 400), _, rfl, hafter items hq hid⟩
  · rw [if_neg hid]
    exact Or.inl ⟨(by decide : 400 ≤ 404), rfl⟩

theorem scene_deleteOne {id : Int} {A : List Json → Prop} (hstill : ¬scene.still)
    (hI : ∀ items, Q items → I items)
    (hafter : ∀ items, Q items → some id ∈ items.map idOf →
      I (items.filter fun item => idOf item ≠ some id) ∧
        A (items.filter fun item => idOf item ≠ some id)) :
    scene.Runs I Q (delete scene.app (.One scene.resource id)) fun _ => A := by
  apply scene_bind (A := fun _ => A)
  · apply scene_write hstill hI
    rintro items pick _ hq rfl
    simp only [Server.serve, Server.items_put, Server.put_put]
    by_cases hid : some id ∈ items.map idOf
    · rw [if_pos hid]
      exact Or.inr ⟨(by decide : 200 < 400), _, rfl, hafter items hq hid⟩
    · rw [if_neg hid]
      exact Or.inl ⟨(by decide : 400 ≤ 404), rfl⟩
  · intro _
    exact scene_pure fun _ ha => ha

theorem scene_postAll {map : List Json.Member} {A : Json → List Json → Prop} (hstill : ¬scene.still)
    (hI : ∀ items, Q items → I items)
    (hafter : ∀ items id, Q items → Fresh items id →
      I (items ++ [Server.created id map]) ∧
        A (Server.created id map) (items ++ [Server.created id map])) :
    scene.Runs I Q (postJson scene.app (.All scene.resource) (.Object map)) A := by
  apply scene_write hstill hI
  rintro items pick _ hq rfl
  simp only [Server.serve, Server.items_put, Server.put_put]
  by_cases hfresh : Fresh items pick
  · rw [if_pos hfresh]
    exact Or.inr ⟨(by decide : 201 < 400), _, rfl, hafter items pick hq hfresh⟩
  · rw [if_neg hfresh]
    exact Or.inl ⟨(by decide : 400 ≤ 500), rfl⟩

end Requests

end Mediaops.Arr
