import QuoteFeed.Client

/-!
What a client relies on from the world outside: that links keep the callback they are given until it
is taken away, and that whatever fails describes its failure.
-/

namespace QuoteFeed

variable {τ : Type}

/-- Nothing has changed in the world outside as far as callbacks go, and it is still as well behaved. -/
structure Alike (net : Network τ) (attempts : Nat → τ → List Nat) (fit : τ → Prop) (t u : τ) : Prop where
  attached : ∀ link, net.attached? link u = net.attached? link t
  attempts : ∀ link, attempts link u = attempts link t
  fit : fit t → fit u

/-- The conduct of a world outside: which attempts each link has ever reported to, and in which
states its failures describe themselves. -/
structure Conduct (net : Network τ) where
  attempts : Nat → τ → List Nat
  fit : τ → Prop
  attempts_of_attached : ∀ {link attempt t}, net.attached? link t = some attempt → attempt ∈ attempts link t
  alike_create : ∀ t, Alike net attempts fit t (net.create t).2.2
  alike_dial : ∀ link endpoint t, Alike net attempts fit t (net.dial link endpoint t).2.2
  alike_send : ∀ link frame t, Alike net attempts fit t (net.send link frame t).2.2
  alike_close : ∀ link t, Alike net attempts fit t (net.close link t).2.2
  alike_sample : ∀ name value t, Alike net attempts fit t (net.sample name value t).2.2
  attached_attach : ∀ {link t} attempt, (net.create t).1 = .ok (some link) →
    net.attached? link (net.attach link attempt (net.create t).2.2) = some attempt
  attached_attach_of_ne : ∀ {link other} attempt t, other ≠ link →
    net.attached? other (net.attach link attempt t) = net.attached? other t
  attempts_attach : ∀ {link t} attempt, (net.create t).1 = .ok (some link) →
    attempts link (net.attach link attempt (net.create t).2.2) = attempt :: attempts link t
  attempts_attach_of_ne : ∀ {link other} attempt t, other ≠ link →
    attempts other (net.attach link attempt t) = attempts other t
  fit_attach : ∀ {t} link attempt, fit t → fit (net.attach link attempt t)
  attached_detach : ∀ link t, net.attached? link (net.detach link t) = none
  attached_detach_of_ne : ∀ {link other} t, other ≠ link →
    net.attached? other (net.detach link t) = net.attached? other t
  attempts_detach : ∀ link other t, attempts other (net.detach link t) = attempts other t
  fit_detach : ∀ {t} link, fit t → fit (net.detach link t)
  standard_create : ∀ {t e}, fit t → (net.create t).1 = .error e → e.isStandard = true
  standard_dial : ∀ {link endpoint t e}, fit t → (net.dial link endpoint t).1.2 = some e → e.isStandard = true
  standard_send : ∀ {link frame t e}, fit t → (net.send link frame t).1 = some e → e.isStandard = true
  standard_close : ∀ {link t e}, fit t → (net.close link t).1 = some e → e.isStandard = true

namespace Conduct

variable {net : Network τ} (c : Conduct net)

protected abbrev Alike (t u : τ) : Prop := QuoteFeed.Alike net c.attempts c.fit t u

theorem alike_refl (t : τ) : c.Alike t t := ⟨fun _ => rfl, fun _ => rfl, id⟩

/-- The world outside before anything has been done with it. -/
structure Blank (t : τ) : Prop where
  fit : c.fit t
  attached : ∀ link, net.attached? link t = none
  attempts : ∀ link, c.attempts link t = []

/-- A link that is made has never reported to anybody. -/
def Fresh : Prop := ∀ link t, (net.create t).1 = .ok (some link) → c.attempts link t = []

/-- Some link has been given the number that reports have to carry now. -/
def Current (w : World τ) : Prop := ∃ link, w.client.attempt ∈ c.attempts link w.outside

end Conduct

end QuoteFeed
