/-
`EntitlementsService`: what a user is told about credits.

`getForUser` reads the clock once and runs two queries; the response is
computed here from one database at that moment. Its filter of the grants
is written apart from the one `reserve` uses, in another service of the
source; that the two let the same grants through is a fact to be proved.
-/
import FastRep.Reports.Schema
import Mathlib.Data.List.Sort

namespace FastRep.Reports

open FastRep.Txn

structure SubscriptionView where
  planCode : String
  status : SubscriptionStatus
  currentPeriodEnd : Time
  deriving DecidableEq, Repr

structure GenerationCredits where
  available : Int
  monthly : Int
  purchased : Int
  deriving DecidableEq, Repr

structure EntitlementsResponse where
  subscription : Option SubscriptionView
  generationCredits : GenerationCredits
  canGenerate : Bool
  deriving DecidableEq, Repr

/-- The live subscription that ends last. -/
def currentSubscription (userId : Id) (now : Time) (d : Db Row) :
    Option SubscriptionView :=
  (((subscriptions d).filter fun r => r.userId = userId
      && (r.status = .active || r.status = .gracePeriod) && now < r.currentPeriodEnd
      ).insertionSort fun l r => r.currentPeriodEnd ≤ l.currentPeriodEnd).head?.map
    fun r => { planCode := r.planCode, status := r.status
               currentPeriodEnd := r.currentPeriodEnd }

/-- The grants `getForUser` counts. -/
def countedGrants (userId : Id) (now : Time) (d : Db Row) : List GenerationCreditGrant :=
  (grants d).filter fun r => r.userId = userId && decide (r.remainingCredits > 0)
    && decide (r.validFrom ≤ now)
    && (r.expiresAt.isNone || r.expiresAt.any fun expiresAt => expiresAt > now)

/-- `reduce((total, grant) => total + grant.remainingCredits, 0)`. -/
def totalRemaining (l : List GenerationCreditGrant) : Int :=
  l.foldl (fun total grant => total + grant.remainingCredits) 0

def getForUser (userId : Id) (now : Time) (d : Db Row) : EntitlementsResponse :=
  let subscription := currentSubscription userId now d
  let grants := countedGrants userId now d
  let monthly := totalRemaining (grants.filter fun grant => grant.source = .subscriptionMonthly)
  let purchased := totalRemaining (grants.filter fun grant => grant.source = .purchasedPack)
  let available := totalRemaining grants
  { subscription
    generationCredits := { available, monthly, purchased }
    canGenerate := available > 0 }

end FastRep.Reports
