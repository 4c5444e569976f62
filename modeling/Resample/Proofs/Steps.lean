/-!
# Steps that can fail

What is known when a chain of steps, or one step for each item of a list, did not fail.
-/

namespace Resample

variable {α β γ ε : Type}

/-- A chain of two steps succeeds if both do. -/
theorem bind_eq_ok_iff {x : Except ε α} {f : α → Except ε β} {b : β} :
    (x >>= f) = .ok b ↔ ∃ a, x = .ok a ∧ f a = .ok b := by
  cases x with
  | error e => simp [bind, Except.bind]
  | ok a => simp [bind, Except.bind]

/-- What is guarded by a check succeeds if the check does. -/
theorem exists_guarded_eq_ok_iff {x : Except ε Unit} {b : β} :
    (∃ b', (do x; return b) = Except.ok b') ↔ x = .ok () := by
  cases x with
  | error e => simp [bind, Except.bind]
  | ok => simp [bind, Except.bind, pure, Except.pure]

/-- Steps for the items of a list, one after another, succeed if each of them can. -/
theorem exists_foldlM_eq_ok_iff {f : β → α → Except ε β} {P : α → Prop} {items : List α}
    (hf : ∀ b, ∀ a ∈ items, (∃ b', f b a = .ok b') ↔ P a) (b : β) :
    (∃ b', items.foldlM f b = .ok b') ↔ ∀ a ∈ items, P a := by
  induction items generalizing b with
  | nil => simp [pure, Except.pure]
  | cons a rest ih =>
    rw [List.foldlM_cons, List.forall_mem_cons, ← hf b a (List.mem_cons_self ..)]
    cases f b a with
    | error e => simp [bind, Except.bind]
    | ok b' => simpa [bind, Except.bind] using ih (fun b a ha => hf b a (List.mem_cons_of_mem _ ha)) b'

/-- Steps for the items of a list that all succeed are steps that cannot fail. -/
theorem foldlM_eq_ok {f : β → α → Except ε β} {g : β → α → β} {items : List α}
    (hf : ∀ b, ∀ a ∈ items, f b a = .ok (g b a)) (b : β) : items.foldlM f b = .ok (items.foldl g b) := by
  induction items generalizing b with
  | nil => rfl
  | cons a rest ih =>
    rw [List.foldlM_cons, hf b a (List.mem_cons_self ..), List.foldl_cons]
    exact ih (fun b a ha => hf b a (List.mem_cons_of_mem _ ha)) _

/-- A step fails if and only if it does with its result changed. -/
theorem exists_map_eq_error_iff {x : Except ε α} {f : α → β} :
    (∃ e, x.map f = .error e) ↔ ∃ e, x = .error e := by
  cases x with
  | error e => exact iff_of_true ⟨e, rfl⟩ ⟨e, rfl⟩
  | ok a => exact iff_of_false (fun ⟨_, h⟩ => by cases h) (fun ⟨_, h⟩ => by cases h)

/-- A success has no failure to name otherwise. -/
theorem mapError_ok (f : ε → γ) (a : α) : (Except.ok a).mapError f = .ok a := rfl

/-- Naming a failure otherwise does not change what succeeds. -/
theorem mapError_eq_ok_iff {x : Except ε α} {f : ε → γ} {a : α} :
    x.mapError f = .ok a ↔ x = .ok a := by
  cases x with
  | error e => exact iff_of_false nofun nofun
  | ok b => rw [mapError_ok, Except.ok.injEq, Except.ok.injEq]

/-- What the result of a step shows, the results of the steps for the items of a list show. -/
theorem map_eq_of_mapM_eq_ok {f : α → Except ε β} {g : β → γ} {h : α → γ}
    (hf : ∀ a b, f a = .ok b → g b = h a) {items : List α} {results : List β}
    (hok : items.mapM f = .ok results) : results.map g = items.map h := by
  induction items generalizing results with
  | nil =>
    cases hok
    rfl
  | cons a rest ih =>
    rw [List.mapM_cons] at hok
    obtain ⟨b, hb, hrest⟩ := bind_eq_ok_iff.1 hok
    obtain ⟨tail, htail, hresults⟩ := bind_eq_ok_iff.1 hrest
    cases hresults
    rw [List.map_cons, List.map_cons, hf a b hb, ih htail]

/-- Where the steps for the items of a list succeed, each of them does. -/
theorem exists_eq_ok_of_mapM {f : α → Except ε β} {items : List α} {results : List β}
    (hok : items.mapM f = .ok results) {a : α} (ha : a ∈ items) : ∃ b, f a = .ok b := by
  induction items generalizing results with
  | nil => exact absurd ha (by simp)
  | cons a' rest ih =>
    rw [List.mapM_cons] at hok
    obtain ⟨b, hb, hrest⟩ := bind_eq_ok_iff.1 hok
    obtain ⟨tail, htail, -⟩ := bind_eq_ok_iff.1 hrest
    rcases List.mem_cons.1 ha with rfl | ha
    · exact ⟨b, hb⟩
    · exact ih htail ha

/-- Where each of them succeeds, the steps for the items of a list do. -/
theorem exists_mapM_eq_ok {f : α → Except ε β} {items : List α} (h : ∀ a ∈ items, ∃ b, f a = .ok b) :
    ∃ results, items.mapM f = .ok results := by
  induction items with
  | nil => exact ⟨[], rfl⟩
  | cons a rest ih =>
    obtain ⟨b, hb⟩ := h a (List.mem_cons_self ..)
    obtain ⟨tail, htail⟩ := ih fun a' ha' => h a' (List.mem_cons_of_mem _ ha')
    refine ⟨b :: tail, ?_⟩
    rw [List.mapM_cons, hb, htail]
    rfl

/-- Every result of the steps comes from an item. -/
theorem exists_of_mem_mapM_ok {f : α → Except ε β} {items : List α} {results : List β}
    (hok : items.mapM f = .ok results) {b : β} (hb : b ∈ results) : ∃ a ∈ items, f a = .ok b := by
  induction items generalizing results with
  | nil =>
    cases hok
    exact absurd hb (by simp)
  | cons a rest ih =>
    rw [List.mapM_cons] at hok
    obtain ⟨b', hb', hrest⟩ := bind_eq_ok_iff.1 hok
    obtain ⟨tail, htail, hresults⟩ := bind_eq_ok_iff.1 hrest
    cases hresults
    rcases List.mem_cons.1 hb with rfl | hb
    · exact ⟨a, List.mem_cons_self .., hb'⟩
    · obtain ⟨a', ha', hfa'⟩ := ih htail hb
      exact ⟨a', List.mem_cons_of_mem _ ha', hfa'⟩

/-- A step for each item of a list, taken apart at the first item. -/
theorem mapM_cons_eq_some_iff {f : α → Option β} {a : α} {rest : List α} {results : List β} :
    (a :: rest).mapM f = some results ↔
      ∃ b tail, f a = some b ∧ rest.mapM f = some tail ∧ results = b :: tail := by
  rw [List.mapM_cons]
  cases f a <;> cases rest.mapM f <;> simp [eq_comm]

/-- Where all steps succeed, there are as many results as items. -/
theorem length_of_mapM_eq_some {f : α → Option β} {items : List α} {results : List β}
    (hmap : items.mapM f = some results) : results.length = items.length := by
  induction items generalizing results with
  | nil =>
    cases hmap
    rfl
  | cons a rest ih =>
    obtain ⟨b, tail, -, htail, rfl⟩ := mapM_cons_eq_some_iff.1 hmap
    rw [List.length_cons, List.length_cons, ih htail]

/-- Every result comes from an item. -/
theorem exists_of_mem_mapM {f : α → Option β} {items : List α} {results : List β}
    (hmap : items.mapM f = some results) {b : β} (hb : b ∈ results) : ∃ a ∈ items, f a = some b := by
  induction items generalizing results with
  | nil =>
    cases hmap
    exact absurd hb (by simp)
  | cons a rest ih =>
    obtain ⟨b', tail, hb', htail, rfl⟩ := mapM_cons_eq_some_iff.1 hmap
    rcases List.mem_cons.1 hb with rfl | hb
    · exact ⟨a, List.mem_cons_self .., hb'⟩
    · obtain ⟨a', ha', hfa'⟩ := ih htail hb
      exact ⟨a', List.mem_cons_of_mem _ ha', hfa'⟩

/-- Where each step succeeds, all of them do. -/
theorem exists_mapM_eq_some {f : α → Option β} {items : List α} (h : ∀ a ∈ items, ∃ b, f a = some b) :
    ∃ results, items.mapM f = some results := by
  induction items with
  | nil => exact ⟨[], rfl⟩
  | cons a rest ih =>
    obtain ⟨b, hb⟩ := h a (List.mem_cons_self ..)
    obtain ⟨tail, htail⟩ := ih fun a' ha' => h a' (List.mem_cons_of_mem _ ha')
    exact ⟨b :: tail, mapM_cons_eq_some_iff.2 ⟨b, tail, hb, htail, rfl⟩⟩

/-- Every item has a result. -/
theorem exists_mem_mapM_of_mem {f : α → Option β} {items : List α} {results : List β}
    (hmap : items.mapM f = some results) {a : α} (ha : a ∈ items) : ∃ b ∈ results, f a = some b := by
  induction items generalizing results with
  | nil => exact absurd ha (by simp)
  | cons a' rest ih =>
    obtain ⟨b', tail, hb', htail, rfl⟩ := mapM_cons_eq_some_iff.1 hmap
    rcases List.mem_cons.1 ha with rfl | ha
    · exact ⟨b', List.mem_cons_self .., hb'⟩
    · obtain ⟨b, hb, hfb⟩ := ih htail ha
      exact ⟨b, List.mem_cons_of_mem _ hb, hfb⟩

end Resample
