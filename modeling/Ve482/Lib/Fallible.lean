set_option autoImplicit false

/- What is known of a computation that may stop: what it returns and why it stops. -/
namespace Ve482.Fallible

variable {ε α β : Type} {stops stops' : ε → Prop} {post : α → Prop}

def Ends (stops : ε → Prop) (post : α → Prop) : Except ε α → Prop
  | .ok value => post value
  | .error stop => stops stop

theorem Ends.bind {then' : β → Prop} {first : Except ε α} {rest : α → Except ε β}
    (before : Ends stops post first) (after : ∀ value, post value → Ends stops then' (rest value)) :
    Ends stops then' (first >>= rest) := by
  cases first with
  | error stop => exact before
  | ok value => exact after value before

theorem Ends.imp {post' : α → Prop} {outcome : Except ε α} (ends : Ends stops post outcome)
    (weaker : ∀ value, post value → post' value) : Ends stops post' outcome := by
  cases outcome with
  | error stop => exact ends
  | ok value => exact weaker value ends

theorem Ends.stop {outcome : Except ε α} (ends : Ends stops post outcome)
    (weaker : ∀ stop, stops stop → stops' stop) : Ends stops' post outcome := by
  cases outcome with
  | error stop => exact weaker stop ends
  | ok value => exact ends

/-- Two things that are known of one computation. -/
theorem Ends.and {post' : α → Prop} {outcome : Except ε α} (left : Ends stops post outcome)
    (right : Ends stops' post' outcome) :
    Ends (fun stop => stops stop ∧ stops' stop) (fun value => post value ∧ post' value) outcome := by
  cases outcome with
  | error stop => exact ⟨left, right⟩
  | ok value => exact ⟨left, right⟩

/-- A part of what a computation returns. -/
theorem Ends.map {f : α → β} {part : β → Prop} {outcome : Except ε α}
    (ends : Ends stops (fun value => part (f value)) outcome) : Ends stops part (outcome.map f) := by
  cases outcome with
  | error stop => exact ends
  | ok value => exact ends

theorem Ends.of_map {f : α → β} {part : β → Prop} {outcome : Except ε α}
    (ends : Ends stops part (outcome.map f)) : Ends stops (fun value => part (f value)) outcome := by
  cases outcome with
  | error stop => exact ends
  | ok value => exact ends

theorem Ends.of_eq {outcome : Except ε α} {value : α} (ends : Ends stops post outcome)
    (same : outcome = .ok value) : post value := by
  rw [same] at ends
  exact ends

/-- A computation returns if a part of what it returns is known. -/
theorem returns_of_map {outcome : Except ε α} {part : α → β} {value : β}
    (known : outcome.map part = .ok value) : ∃ result, outcome = .ok result ∧ part result = value := by
  cases outcome with
  | error stop => cases known
  | ok result => exact ⟨result, rfl, Except.ok.inj known⟩

/-- A computation and its part go on alike. -/
theorem map_bind {α' β' : Type} {part : α → α'} {part' : β → β'} {first : Except ε α}
    {first' : Except ε α'} {rest : α → Except ε β} {rest' : α' → Except ε β'}
    (same : first.map part = first') (alike : ∀ value, (rest value).map part' = rest' (part value)) :
    (first >>= rest).map part' = first' >>= rest' := by
  subst same
  cases first with
  | error stop => rfl
  | ok value => exact alike value

end Ve482.Fallible
