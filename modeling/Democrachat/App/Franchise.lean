import Democrachat.App.Servers

/-!
# The way into the franchise

`Services::try_enfranchise` and `Services::set_contribution` of
`app/src/services.rs`.
-/

namespace Democrachat

open Library Req

def rateCapWindowDays : Int := 30

/-- Where the window of the rate cap starts. -/
def windowStart (now : Timestamp) : Timestamp :=
  ⟨now.secs - rateCapWindowDays * Timestamp.secondsPerDay⟩

/-- What admission writes. -/
def Membership.admittedAt (m : Membership) (now : Timestamp) : Membership :=
  { m with tier := .citizen, enfranchisedAt := some now }

def tryEnfranchise (handle serverSlug : String) :
    Req World EnfranchiseError EnfranchiseOutcome := do
  let user ← okOr (← ask (·.findByHandle (trim handle))) (.noSuchUser handle)
  let server ← okOr (← ask (·.findBySlug (trim serverSlug))) (.noSuchServer serverSlug)
  let membership ← okOr (← ask (·.getMembership user.id server.id)) (.notAMember handle)
  ensure (!membership.isCitizen) (.alreadyCitizen handle)
  let now ← clockNow
  -- Layer 1: the earned franchise.
  let eligibility := evaluateEligibility user membership server.criteria now
  if !eligibility.isEligible then
    return .notEligible eligibility.unmet
  else
    -- Layer 2: the rate cap.  These two reads and the write below are three
    -- separate accesses to the store.
    let citizens ← ask (·.citizenCount server.id)
    let admitted ← ask (·.admittedSince server.id (windowStart now))
    if enfranchisementSlots citizens admitted = 0 then
      return .rateCapped admitted
    else
      write (·.upsertMembership (membership.admittedAt now))
      return .admitted

/-- Dev helper: set the contribution score directly. -/
def setContribution (handle serverSlug : String) (contribution : Int) :
    Req World EnfranchiseError Unit := do
  let user ← okOr (← ask (·.findByHandle (trim handle))) (.noSuchUser handle)
  let server ← okOr (← ask (·.findBySlug (trim serverSlug))) (.noSuchServer serverSlug)
  let membership ← okOr (← ask (·.getMembership user.id server.id)) (.notAMember handle)
  write (·.upsertMembership { membership with contribution := contribution })

end Democrachat
