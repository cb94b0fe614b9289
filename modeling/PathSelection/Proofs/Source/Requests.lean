import PathSelection.Source.Basic

namespace PathSelection

/-- The states of a source in which no request fails, and which it does not leave by a request. -/
structure Responsive {σ α : Type} [MeasurementSource σ α] (active : σ → Prop) : Prop where
  refreshes : ∀ source, active source → ∃ status source',
    MeasurementSource.refresh source = (.ok status, source') ∧ active source'
  prefers : ∀ selected source, active source → ∃ source',
    MeasurementSource.prefer selected source = (.ok (), source') ∧ active source'

section Source

variable {σ α : Type} [MeasurementSource σ α]

/-- At most so many requests for a snapshot, and the answers to them. There is no request after an
answer that is not stale. -/
inductive Awaits : Nat → σ → List FeedStatus → σ → Prop
  | gaveUp (source : σ) : Awaits 0 source [] source
  | stale {attempts : Nat} {source source₁ source₂ : σ} {feeds : List FeedStatus}
      (hrefresh : MeasurementSource.refresh source = (.ok .stale, source₁))
      (h : Awaits attempts source₁ feeds source₂) :
      Awaits (attempts + 1) source (.stale :: feeds) source₂
  | answered {attempts : Nat} {source source₁ : σ} {status : FeedStatus}
      (hrefresh : MeasurementSource.refresh source = (.ok status, source₁))
      (hstatus : status ≠ .stale) : Awaits (attempts + 1) source [status] source₁

/-- What a turn asks of the source, if there is one: it delivers the selection and then awaits a
snapshot. -/
inductive Steered (attempts : Nat) (selected : List Nat) :
    Option σ → List FeedStatus → Option σ → Prop
  | offline : Steered attempts selected none [] none
  | live {source source₁ source₂ : σ} {feeds : List FeedStatus}
      (hprefer : MeasurementSource.prefer selected source = (.ok (), source₁))
      (hawaits : Awaits attempts source₁ feeds source₂) :
      Steered attempts selected (some source) feeds (some source₂)

theorem Steered.feeds_ne_nil {attempts : Nat} {selected : List Nat} {source source' : Option σ}
    {feeds : List FeedStatus} (h : Steered attempts selected source feeds source')
    (hattempts : 0 < attempts) (hlive : source.isSome = true) : feeds ≠ [] := by
  cases h with
  | offline => exact absurd hlive Bool.false_ne_true
  | live hprefer hawaits =>
    cases hawaits with
    | gaveUp => exact absurd hattempts (Nat.lt_irrefl 0)
    | stale => exact List.cons_ne_nil _ _
    | answered => exact List.cons_ne_nil _ _

end Source

end PathSelection
