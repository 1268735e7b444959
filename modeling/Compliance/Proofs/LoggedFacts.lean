import Compliance.Diagnostics

/-! # Facts about computations that record messages

* `textsAt_eq_nil`, `textsAt_append`: the texts of a level.
* `andThen_ok`, `mem_andThen`, `messages_andThen`: results and messages of a sequence are those of
  its parts.
* `fold_total`: a fold ends with a result in the invariant if every step does.
* `fold_keeps`: if a fold ends with a result, what each step keeps holds of it.
* `fold_error`: if it ends with a fault, that is the fault of one of its steps.
* `each_done`, `each_cut`: the messages of a loop, whether or not an action stops it.
* `each_append`, `each_flatMap`, `each_map`: loops over lists that are put together.
* `mem_fold`, `mem_each`: every message of a loop is the message of one of its steps.
-/

namespace Compliance

/-! ## Texts of a level -/

theorem textsAt_eq_nil {level : Level} {ms : List Message} :
    Message.textsAt level ms = [] ↔ ∀ m ∈ ms, m.level ≠ level := by
  simp [Message.textsAt, List.filter_eq_nil_iff]

theorem textsAt_append (level : Level) (ms ns : List Message) :
    Message.textsAt level (ms ++ ns) = Message.textsAt level ms ++ Message.textsAt level ns := by
  simp [Message.textsAt]

namespace Logged

variable {ε α β γ : Type}

/-! ## Sequences -/

theorem andThen_ok {x : Logged ε α} {f : α → Logged ε β} {b : β} :
    (x.andThen f).outcome = .ok b ↔ ∃ a, x.outcome = .ok a ∧ (f a).outcome = .ok b := by
  unfold andThen
  split
  · rename_i e he
    simp [he]
  · rename_i a ha
    simp [ha]

theorem mem_andThen {x : Logged ε α} {f : α → Logged ε β} {m : Message}
    (h : m ∈ (x.andThen f).messages) :
    m ∈ x.messages ∨ ∃ a, x.outcome = .ok a ∧ m ∈ (f a).messages := by
  unfold andThen at h
  split at h
  · exact .inl h
  · rename_i a ha
    exact (List.mem_append.mp h).imp id fun hm => ⟨a, ha, hm⟩

theorem messages_andThen {x : Logged ε α} {a : α} (h : x.outcome = .ok a)
    (f : α → Logged ε β) : (x.andThen f).messages = x.messages ++ (f a).messages := by
  unfold andThen
  rw [h]

theorem andThen_assoc {x y : Logged ε Unit} {z : Logged ε Unit} :
    ((x.andThen fun _ => y).andThen fun _ => z) =
      x.andThen fun _ => y.andThen fun _ => z := by
  obtain ⟨ms, outcome⟩ := x
  cases outcome with
  | error e => rfl
  | ok u =>
    obtain ⟨ns, outcome⟩ := y
    cases outcome <;> simp [andThen]

theorem andThen_done (x : Logged ε Unit) : (x.andThen fun _ => done ()) = x := by
  obtain ⟨ms, outcome⟩ := x
  cases outcome <;> simp [andThen, done]

/-! ## Folds -/

variable {step : α → γ → Logged ε α}

theorem fold_total (Inv : α → Prop) : ∀ {items : List γ} {start : α}, Inv start →
    (∀ x ∈ items, ∀ a, Inv a → ∃ a', (step a x).outcome = .ok a' ∧ Inv a') →
    ∃ a', (fold items start step).outcome = .ok a' ∧ Inv a'
  | [], start, h, _ => ⟨start, rfl, h⟩
  | x :: items, start, h, hs => by
    obtain ⟨a, ha, hi⟩ := hs x List.mem_cons_self start h
    obtain ⟨a', ha', hi'⟩ := fold_total Inv hi fun y hy => hs y (List.mem_cons_of_mem _ hy)
    exact ⟨a', andThen_ok.mpr ⟨a, ha, ha'⟩, hi'⟩

theorem fold_keeps (Inv : α → Prop) : ∀ {items : List γ} {start result : α}, Inv start →
    (∀ x ∈ items, ∀ a a', Inv a → (step a x).outcome = .ok a' → Inv a') →
    (fold items start step).outcome = .ok result → Inv result
  | [], _, _, h, _, hr => by
    obtain rfl := Except.ok.inj hr
    exact h
  | x :: items, start, _, h, hs, hr => by
    obtain ⟨a, ha, hr⟩ := andThen_ok.mp hr
    exact fold_keeps Inv (hs x List.mem_cons_self start a h ha)
      (fun y hy => hs y (List.mem_cons_of_mem _ hy)) hr

theorem fold_error {e : ε} : ∀ {items : List γ} {start : α},
    (fold items start step).outcome = .error e → ∃ x ∈ items, ∃ a, (step a x).outcome = .error e
  | [], _, h => nomatch h
  | x :: items, start, h => by
    rw [fold, andThen] at h
    split at h
    · rename_i fault hf
      exact ⟨x, List.mem_cons_self, start, hf.trans h⟩
    · obtain ⟨y, hy, a, ha⟩ := fold_error h
      exact ⟨y, List.mem_cons_of_mem _ hy, a, ha⟩

theorem mem_fold {m : Message} : ∀ {items : List γ} {start : α},
    m ∈ (fold items start step).messages → ∃ x ∈ items, ∃ a, m ∈ (step a x).messages
  | [], _, h => absurd h List.not_mem_nil
  | x :: items, start, h => by
    rcases mem_andThen h with hm | ⟨a, -, hm⟩
    · exact ⟨x, List.mem_cons_self, start, hm⟩
    · obtain ⟨y, hy, a', hm⟩ := mem_fold hm
      exact ⟨y, List.mem_cons_of_mem _ hy, a', hm⟩

/-! ## Loops without a value -/

theorem each_total {action : γ → Logged ε Unit} : ∀ {items : List γ},
    (∀ x ∈ items, (action x).outcome = .ok ()) → (each items action).outcome = .ok ()
  | [], _ => rfl
  | x :: _, h => andThen_ok.mpr
    ⟨(), h x List.mem_cons_self, each_total fun y hy => h y (List.mem_cons_of_mem _ hy)⟩

theorem each_done {action : γ → Logged ε Unit} : ∀ {items : List γ},
    (∀ x ∈ items, (action x).outcome = .ok ()) →
    each items action = ⟨items.flatMap fun x => (action x).messages, .ok ()⟩
  | [], _ => rfl
  | x :: items, h => by
    have hrest := each_done fun y hy => h y (List.mem_cons_of_mem _ hy)
    rw [each, andThen, h x List.mem_cons_self, hrest, List.flatMap_cons]

/-- The first action that stops ends a loop, and its messages are the last. -/
theorem each_cut {action : γ → Logged ε Unit} {before after : List γ} {x : γ} {e : ε}
    (hbefore : ∀ y ∈ before, (action y).outcome = .ok ()) (h : (action x).outcome = .error e) :
    each (before ++ x :: after) action =
      ⟨(before.flatMap fun y => (action y).messages) ++ (action x).messages, .error e⟩ := by
  induction before with
  | nil =>
    rw [List.nil_append, each, andThen, h]
    rfl
  | cons y before ih =>
    have hrest := ih fun z hz => hbefore z (List.mem_cons_of_mem _ hz)
    rw [List.cons_append, each, andThen, hbefore y List.mem_cons_self, hrest]
    simp

theorem each_append (xs ys : List γ) (action : γ → Logged ε Unit) :
    each (xs ++ ys) action = (each xs action).andThen fun _ => each ys action := by
  induction xs with
  | nil => rfl
  | cons x xs ih => rw [List.cons_append, each, ih, each, andThen_assoc]

theorem each_flatMap (items : List α) (steps : α → List γ) (action : γ → Logged ε Unit) :
    each (items.flatMap steps) action = each items fun x => each (steps x) action := by
  induction items with
  | nil => rfl
  | cons x items ih => rw [List.flatMap_cons, each_append, ih, each]

theorem each_map (items : List α) (step : α → γ) (action : γ → Logged ε Unit) :
    each (items.map step) action = each items fun x => action (step x) := by
  induction items with
  | nil => rfl
  | cons x items ih => rw [List.map_cons, each, each, ih]

theorem mem_each {action : γ → Logged ε Unit} {m : Message} : ∀ {items : List γ},
    m ∈ (each items action).messages → ∃ x ∈ items, m ∈ (action x).messages
  | [], h => absurd h List.not_mem_nil
  | x :: items, h => by
    rcases mem_andThen h with hm | ⟨-, -, hm⟩
    · exact ⟨x, List.mem_cons_self, hm⟩
    · obtain ⟨y, hy, hm⟩ := mem_each hm
      exact ⟨y, List.mem_cons_of_mem _ hy, hm⟩

end Logged

end Compliance
