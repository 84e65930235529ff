import Mathlib.Algebra.Module.BigOperators
import OasisCore.SecretSharing.Lagrange

/-!
# Recovering the shared secret

The players of Shamir secret sharing (`shamir/player.rs`) and of CHURP
(`churp/player.rs`), and the key recoverer of the key derivation center
(`kdc/mod.rs`), check that there are enough shares and that they come from distinct
shareholders, and then weight the shares by the Lagrange coefficients at zero. At
shares on a polynomial of degree below their number the weighted sum is the
polynomial's value at zero, the secret; a key share is the secret share times a
group element, and the same sum recovers the secret times that element.

A group of the crate is a prime-order group over the scalar field; here it is any
module over the field, and `hash * y` is `y • hash`. A random number generator is the
sequence of field elements it draws.
-/

open Polynomial

namespace OasisCore

namespace SecretSharing

variable {F : Type} [Field F] [DecidableEq F]

/-! ## The checks and the weighted sum -/

/-- `distinct_shares` (`shamir/player.rs:43-54`, `churp/player.rs:53-64`,
`kdc/mod.rs:84-95`) on the x-coordinates of the shares: the first equal pair
returns false. -/
def distinctShares (xs : List F) : Bool :=
  (List.range xs.length).all fun i =>
    (List.range' (i + 1) (xs.length - (i + 1))).all fun j => xs.getD i 0 != xs.getD j 0

/-- What the recoveries of the crate share: too few shares, or two from one
shareholder, are an error, and otherwise the coefficients of the x-coordinates are
combined with the shares. `None` is a panic of `coefficients`. -/
def recoverWith {α M : Type} (minShares : ℕ) (x : α → F) (combine : List F → List α → M)
    (shares : List α) : Option (Except String M) :=
  if shares.length < minShares then some (.error "not enough shares")
  else if !distinctShares (shares.map x) then some (.error "not distinct shares")
  else (coefficients (shares.map x)).map fun cs => .ok (combine cs shares)

theorem distinctShares_iff {xs : List F} : distinctShares xs = true ↔ xs.Nodup := by
  simp only [distinctShares, List.all_eq_true, List.mem_range, List.mem_range'_1, bne_iff_ne,
    ne_eq]
  rw [List.Nodup, List.pairwise_iff_getElem]
  constructor
  · intro h i j hi hj hij
    have hne := h i hi j ⟨hij, by omega⟩
    simpa [List.getD_eq_getElem?_getD, List.getElem?_eq_getElem hi,
      List.getElem?_eq_getElem hj] using hne
  · rintro h i hi j ⟨hij, hjn⟩
    have hj : j < xs.length := by omega
    simpa [List.getD_eq_getElem?_getD, List.getElem?_eq_getElem hi,
      List.getElem?_eq_getElem hj] using h i j hi hj hij

section Recover

variable {α M : Type} {minShares : ℕ} {x : α → F} {combine : List F → List α → M}
  {shares : List α}

theorem recoverWith_eq (minShares : ℕ) (x : α → F) (combine : List F → List α → M)
    (shares : List α) :
    recoverWith minShares x combine shares =
      if shares.length < minShares then some (.error "not enough shares")
      else if (shares.map x).Nodup then
        some (.ok (combine ((List.range shares.length).map (coefficientValue (shares.map x)))
          shares))
      else some (.error "not distinct shares") := by
  unfold recoverWith
  by_cases hlen : shares.length < minShares
  · rw [if_pos hlen, if_pos hlen]
  · rw [if_neg hlen, if_neg hlen]
    by_cases hnodup : (shares.map x).Nodup
    · rw [distinctShares_iff.mpr hnodup, if_pos hnodup, coefficients_eq hnodup, List.length_map]
      rfl
    · have hdistinct : distinctShares (shares.map x) = false :=
        Bool.eq_false_iff.mpr fun h => hnodup (distinctShares_iff.mp h)
      rw [hdistinct, if_neg hnodup]
      rfl

theorem recoverWith_ok (hlen : minShares ≤ shares.length) (hnodup : (shares.map x).Nodup) :
    recoverWith minShares x combine shares =
      some (.ok (combine ((List.range shares.length).map (coefficientValue (shares.map x)))
        shares)) := by
  rw [recoverWith_eq, if_neg (by omega), if_pos hnodup]

/-- Without enough shares from distinct shareholders the recovery is an error, never a
panic. -/
theorem recoverWith_error (h : ¬ (minShares ≤ shares.length ∧ (shares.map x).Nodup)) :
    ∃ e, recoverWith minShares x combine shares = some (.error e) := by
  rw [recoverWith_eq]
  by_cases hlen : shares.length < minShares
  · exact ⟨_, if_pos hlen⟩
  · have hnodup : ¬ (shares.map x).Nodup := fun hn => h ⟨by omega, hn⟩
    exact ⟨_, by rw [if_neg hlen, if_neg hnodup]⟩

omit [DecidableEq F] in
/-- Weighted by the coefficients, the values of a polynomial of degree below their
number at distinct shareholders sum to its value at zero. -/
theorem sum_zip_coefficientValue (d : α) (hnodup : (shares.map x).Nodup) {p : F[X]}
    (hdeg : p.degree < shares.length) :
    ((((List.range shares.length).map (coefficientValue (shares.map x))).zip shares).map
      fun cs => cs.1 * p.eval (x cs.2)).sum = p.eval 0 := by
  have hsum := sum_coefficientValue_mul_eval_poly hnodup (p := p) (by rwa [List.length_map])
  rw [List.length_map] at hsum
  rw [sum_map_zip_range _ _ d, ← hsum]
  refine Finset.sum_congr rfl fun i hi => ?_
  rw [getD_map_of_lt x (Finset.mem_range.mp hi) 0 d]

/-- A recovery whose combination is the weighted sum of the shares' values returns the
value at zero of a polynomial the shares lie on. -/
theorem recoverWith_eq_eval {y : α → F} {combine : List F → List α → F}
    (hcombine : ∀ cs shares, combine cs shares = ((cs.zip shares).map fun cs => cs.1 * y cs.2).sum)
    (d : α) {p : F[X]} (hdeg : p.degree < minShares) (hy : ∀ sh ∈ shares, y sh = p.eval (x sh))
    (hlen : minShares ≤ shares.length) (hnodup : (shares.map x).Nodup) :
    recoverWith minShares x combine shares = some (.ok (p.eval 0)) := by
  rw [recoverWith_ok hlen hnodup, hcombine,
    ← sum_zip_coefficientValue d hnodup (hdeg.trans_le (by exact_mod_cast hlen))]
  congr 3
  refine List.map_congr_left fun cs hcs => ?_
  rw [hy _ (List.of_mem_zip hcs).2]

end Recover

/-! ## Polynomials of a dealer -/

namespace Polynomial

/-- `Polynomial::random` (`univariate.rs:47-57`), drawing `r 0, r 1, ...`. -/
def random (deg : UInt8) (r : ℕ → F) : Polynomial F :=
  withCoefficients ((List.range (deg.toNat + 1)).map r)

/-- `Polynomial::set_coefficient` (`univariate.rs:71-77`): the updated polynomial and
whether the index was in bounds. -/
def setCoefficient (p : Polynomial F) (i : ℕ) (ai : F) : Polynomial F × Bool :=
  if i < p.size then (⟨p.a.set i ai, by simpa using p.a_ne_nil⟩, true) else (p, false)

/-- `Polynomial::is_zero_hole` (`univariate.rs:87-89`). -/
def isZeroHole (p : Polynomial F) : Bool :=
  p.a.head p.a_ne_nil == 0

omit [DecidableEq F] in
theorem size_random (deg : UInt8) (r : ℕ → F) : (random deg r).size = deg.toNat + 1 := by
  rw [random, size, withCoefficients_a (by simp), List.length_map, List.length_range]

omit [Field F] [DecidableEq F] in
theorem setCoefficient_of_lt {p : Polynomial F} {i : ℕ} (hi : i < p.size) (ai : F) :
    (p.setCoefficient i ai).1.a = p.a.set i ai := by
  rw [setCoefficient, if_pos hi]

theorem isZeroHole_iff (p : Polynomial F) : p.isZeroHole = true ↔ p.eval 0 = 0 := by
  rw [isZeroHole, eval_zero_eq, List.head_eq_getElem, List.getD_eq_getElem?_getD,
    List.getElem?_eq_getElem (List.length_pos_iff.mpr p.a_ne_nil), Option.getD_some, beq_iff_eq]

end Polynomial

/-! ## The key derivation center -/

namespace Kdc

/-- `EncryptedPoint` (`poly/point.rs:48-56`): the point `(x, y)` as `(x, y * P)`. -/
structure EncryptedPoint (F G : Type) where
  x : F
  z : G

variable {G : Type} [AddCommGroup G] [Module F G]

/-- `make_key_share` (`kdc/mod.rs:40-53`) of a shareholder's point, `hash` standing
for what `hash_to_group` returns. -/
def makeKeyShare (hash : G) (share : Point F) : EncryptedPoint F G :=
  ⟨share.x, share.y • hash⟩

/-- `KeyRecoverer::recover_key` (`kdc/mod.rs:62-82`) of a recoverer that needs
`minShares` shares: `∑ c_i z_i`. -/
def recoverKey (minShares : ℕ) (shares : List (EncryptedPoint F G)) : Option (Except String G) :=
  recoverWith minShares (·.x)
    (fun cs shares => (cs.zip shares).foldl (fun key cs => key + cs.1 • cs.2.z) 0) shares

/-- At key shares of a polynomial `p` the recovered key is `p(0)` times the hash. -/
theorem recoverKey_eq_smul {minShares : ℕ} {shares : List (EncryptedPoint F G)} {p : F[X]}
    (hash : G) (hdeg : p.degree < minShares) (hz : ∀ sh ∈ shares, sh.z = p.eval sh.x • hash)
    (hlen : minShares ≤ shares.length) (hnodup : (shares.map (·.x)).Nodup) :
    recoverKey minShares shares = some (.ok (p.eval 0 • hash)) := by
  rw [recoverKey, recoverWith_ok hlen hnodup, foldl_add_eq_sum, zero_add,
    ← sum_zip_coefficientValue ⟨0, 0⟩ hnodup (hdeg.trans_le (by exact_mod_cast hlen)),
    List.sum_smul, List.map_map]
  congr 3
  refine List.map_congr_left fun cs hcs => ?_
  rw [Function.comp_apply, hz _ (List.of_mem_zip hcs).2, smul_smul]

end Kdc

/-! ## Shamir secret sharing -/

namespace Shamir

/-- `Dealer` (`shamir/dealer.rs:8-13`): the secret-sharing polynomial. -/
structure Dealer (F : Type) where
  poly : Polynomial F

namespace Dealer

/-- `Dealer::random` (`dealer.rs:27-32`). -/
def random (threshold : UInt8) (r : ℕ → F) : Dealer F :=
  ⟨Polynomial.random threshold r⟩

/-- `Dealer::new` (`dealer.rs:19-24`): the constant term of a random polynomial is set
to the secret. -/
def new (threshold : UInt8) (secret : F) (r : ℕ → F) : Dealer F :=
  ⟨((random threshold r).poly.setCoefficient 0 secret).1⟩

/-- `Dealer::make_share` (`dealer.rs:40-43`). -/
def makeShare (d : Dealer F) (x : F) : Point F :=
  ⟨x, d.poly.eval x⟩

/-- `Dealer::make_shares` (`dealer.rs:35-37`). -/
def makeShares (d : Dealer F) (xs : List F) : List (Point F) :=
  xs.map d.makeShare

omit [DecidableEq F] in
/-- The dealer's polynomial has one coefficient more than the threshold and the secret
as its value at zero. -/
theorem new_poly (threshold : UInt8) (secret : F) (r : ℕ → F) :
    (new threshold secret r).poly.size = threshold.toNat + 1 ∧
      (new threshold secret r).poly.eval 0 = secret := by
  have hpos : 0 < (random threshold r).poly.size := Polynomial.size_pos _
  have ha := Polynomial.setCoefficient_of_lt hpos secret
  constructor
  · rw [new, Polynomial.size, ha, List.length_set]
    exact Polynomial.size_random threshold r
  · rw [new, Polynomial.eval_zero_eq, ha, List.getD_eq_getElem?_getD,
      List.getElem?_set_self hpos, Option.getD_some]

end Dealer

/-- `Shareholder` (`shamir/shareholder.rs:6-10`). -/
structure Shareholder (F : Type) where
  share : Point F

/-- `Shareholder::proactivize` (`shareholder.rs:31-45`): every proactive share must be
for this shareholder; their values are then added to the share's. -/
def Shareholder.proactivize (sh : Shareholder F) (shares : List (Point F)) :
    Except String (Shareholder F) :=
  if shares.any fun share => share.x != sh.share.x then .error "invalid proactive share"
  else .ok ⟨⟨sh.share.x, shares.foldl (fun y share => y + share.y) sh.share.y⟩⟩

/-- `Player` (`shamir/player.rs:11-14`). -/
structure Player where
  threshold : UInt8

/-- `Player::min_shares` (`player.rs:38-40`). -/
def Player.minShares (p : Player) : ℕ :=
  p.threshold.toNat + 1

/-- `Player::recover_secret` (`player.rs:22-36`): `∑ y_i c_i`. -/
def Player.recoverSecret (p : Player) (shares : List (Point F)) : Option (Except String F) :=
  recoverWith p.minShares (·.x)
    (fun cs shares => ((cs.zip (shares.map (·.y))).map fun cy => cy.2 * cy.1).sum) shares

/-- The key recoverer of the player (`player.rs:57-61`). -/
def Player.recoverKey {G : Type} [AddCommGroup G] [Module F G] (p : Player)
    (shares : List (Kdc.EncryptedPoint F G)) : Option (Except String G) :=
  Kdc.recoverKey p.minShares shares

/-- Proactive shares for this shareholder are added to its share. -/
theorem proactivize_makeShares (sh : Shareholder F) (dealers : List (Dealer F)) :
    sh.proactivize (dealers.map (·.makeShare sh.share.x)) =
      .ok ⟨⟨sh.share.x, sh.share.y + (dealers.map (·.poly.eval sh.share.x)).sum⟩⟩ := by
  have hx : (dealers.map (·.makeShare sh.share.x)).any (fun share => share.x != sh.share.x) =
      false := by
    simp [Dealer.makeShare]
  rw [Shareholder.proactivize, hx, if_neg Bool.false_ne_true, foldl_add_eq_sum, List.map_map]
  rfl

/-- A proactive share for another shareholder is refused, and the share is kept. -/
theorem proactivize_error {sh : Shareholder F} {shares : List (Point F)}
    (h : ∃ share ∈ shares, share.x ≠ sh.share.x) :
    sh.proactivize shares = .error "invalid proactive share" := by
  have hany : (shares.any fun share => share.x != sh.share.x) = true := by
    simpa using h
  rw [Shareholder.proactivize, if_pos hany]

/-- After proactivization a share of `p` is a share of `p` plus the dealers' polynomials. -/
theorem proactivize_eval {sh : Shareholder F} {p : F[X]} (hsh : sh.share.y = p.eval sh.share.x)
    (dealers : List (Dealer F)) :
    sh.proactivize (dealers.map (·.makeShare sh.share.x)) =
      .ok ⟨⟨sh.share.x, (p + (dealers.map (·.poly.toPoly)).sum).eval sh.share.x⟩⟩ := by
  rw [proactivize_makeShares, hsh, eval_add, eval_listSum, List.map_map]
  congr 5
  refine List.map_congr_left fun d _ => ?_
  rw [Function.comp_apply, Polynomial.eval_toPoly]

theorem recoverSecret_eq_eval (p : Player) {shares : List (Point F)} {P : F[X]}
    (hdeg : P.degree < p.minShares) (hy : ∀ pt ∈ shares, pt.y = P.eval pt.x)
    (hlen : p.minShares ≤ shares.length) (hnodup : (shares.map (·.x)).Nodup) :
    p.recoverSecret shares = some (.ok (P.eval 0)) := by
  refine recoverWith_eq_eval (y := (·.y)) (fun cs shares => ?_) Point.zero hdeg hy hlen hnodup
  rw [List.zip_map_right, List.map_map]
  congr 1
  refine List.map_congr_left fun cy _ => ?_
  rw [Function.comp_apply, Prod.map_fst, Prod.map_snd, id_eq, mul_comm]

/-- Every shareholder of `P` refreshed by the same dealers holds a share of `P` plus
the dealers' polynomials. -/
theorem mapM_proactivize {P : F[X]} {shareholders : List (Shareholder F)}
    (hsh : ∀ sh ∈ shareholders, sh.share.y = P.eval sh.share.x) (dealers : List (Dealer F)) :
    shareholders.mapM (fun sh => sh.proactivize (dealers.map (·.makeShare sh.share.x))) =
      .ok (shareholders.map fun sh =>
        ⟨⟨sh.share.x, (P + (dealers.map (·.poly.toPoly)).sum).eval sh.share.x⟩⟩) :=
  mapM_eq_pure_map fun sh hmem => proactivize_eval (hsh sh hmem) dealers

/-- Adding the polynomials of dealers of zero-hole polynomials with at most `n`
coefficients keeps a polynomial of degree below `n` and its value at zero. -/
theorem add_sum_dealers {P : F[X]} {n : ℕ} (hdeg : P.degree < n) {dealers : List (Dealer F)}
    (hdealers : ∀ d ∈ dealers, d.poly.size ≤ n ∧ d.poly.isZeroHole = true) :
    (P + (dealers.map (·.poly.toPoly)).sum).degree < n ∧
      (P + (dealers.map (·.poly.toPoly)).sum).eval 0 = P.eval 0 := by
  constructor
  · refine mem_degreeLT.mp (add_mem (mem_degreeLT.mpr hdeg) (list_sum_mem fun q hq => ?_))
    obtain ⟨d, hd, rfl⟩ := List.mem_map.mp hq
    exact mem_degreeLT.mpr (d.poly.degree_toPoly_lt.trans_le (by exact_mod_cast (hdealers d hd).1))
  · rw [eval_add, eval_listSum, List.map_map, add_eq_left]
    refine List.sum_eq_zero fun v hv => ?_
    obtain ⟨d, hd, rfl⟩ := List.mem_map.mp hv
    rw [Function.comp_apply, Polynomial.eval_toPoly]
    exact (Polynomial.isZeroHole_iff _).mp (hdealers d hd).2

/-- Shareholders of `P`, refreshed by dealers of zero-hole polynomials with at most
`min_shares` coefficients, still recover `P(0)`. -/
theorem recoverSecret_proactivize (p : Player) {P : F[X]} (hdeg : P.degree < p.minShares)
    {shareholders : List (Shareholder F)}
    (hsh : ∀ sh ∈ shareholders, sh.share.y = P.eval sh.share.x)
    (hlen : p.minShares ≤ shareholders.length) (hnodup : (shareholders.map (·.share.x)).Nodup)
    {dealers : List (Dealer F)}
    (hdealers : ∀ d ∈ dealers, d.poly.size ≤ p.minShares ∧ d.poly.isZeroHole = true) :
    ∃ refreshed, shareholders.mapM
        (fun sh => sh.proactivize (dealers.map (·.makeShare sh.share.x))) = .ok refreshed ∧
      p.recoverSecret (refreshed.map (·.share)) = some (.ok (P.eval 0)) := by
  obtain ⟨hdegQ, hQ0⟩ := add_sum_dealers hdeg hdealers
  refine ⟨_, mapM_proactivize hsh dealers, ?_⟩
  rw [← hQ0]
  refine recoverSecret_eq_eval p hdegQ (fun pt hpt => ?_) (by simpa using hlen)
    (by simpa [List.map_map, Function.comp_def] using hnodup)
  rw [List.map_map] at hpt
  obtain ⟨sh, -, rfl⟩ := List.mem_map.mp hpt
  rfl

end Shamir

/-! ## CHURP -/

namespace BivariatePolynomial

/-- The slice `B(x, 0)`, on which the full shares lie. -/
noncomputable def sliceX (B : BivariatePolynomial F) : F[X] :=
  listPoly ((List.range (B.degX + 1)).map fun i => B.coeff i 0)

/-- The slice `B(0, y)`, on which the reduced shares lie. -/
noncomputable def sliceY (B : BivariatePolynomial F) : F[X] :=
  listPoly ((List.range (B.degY + 1)).map fun j => B.coeff 0 j)

section Slices

omit [DecidableEq F]

variable (B : BivariatePolynomial F)

theorem degree_sliceX_lt : B.sliceX.degree < ((B.degX + 1 : ℕ) : WithBot ℕ) := by
  have h := degree_listPoly_lt ((List.range (B.degX + 1)).map fun i => B.coeff i 0)
  rw [List.length_map, List.length_range] at h
  exact h

theorem degree_sliceY_lt : B.sliceY.degree < ((B.degY + 1 : ℕ) : WithBot ℕ) := by
  have h := degree_listPoly_lt ((List.range (B.degY + 1)).map fun j => B.coeff 0 j)
  rw [List.length_map, List.length_range] at h
  exact h

theorem eval_zero_sliceX : B.sliceX.eval 0 = B.eval 0 0 := by
  rw [sliceX, ← coeff_zero_eq_eval_zero, coeff_listPoly, getD_map_range _ (Nat.succ_pos _),
    eval_zero_zero]

theorem eval_zero_sliceY : B.sliceY.eval 0 = B.eval 0 0 := by
  rw [sliceY, ← coeff_zero_eq_eval_zero, coeff_listPoly, getD_map_range _ (Nat.succ_pos _),
    eval_zero_zero]

/-- The constant term of `B(x, y)` at a fixed `x` is `B(x, 0)`. -/
theorem getD_evalX (x : F) : (B.evalX x).a.getD 0 0 = B.sliceX.eval x := by
  rw [evalX_a, getD_map_range _ (Nat.succ_pos _), sliceX, eval_listPoly, List.length_map,
    List.length_range]
  refine Finset.sum_congr rfl fun i hi => ?_
  rw [getD_map_range _ (Finset.mem_range.mp hi)]

/-- The constant term of `B(x, y)` at a fixed `y` is `B(0, y)`. -/
theorem getD_evalY (y : F) : (B.evalY y).a.getD 0 0 = B.sliceY.eval y := by
  rw [evalY_a, getD_map_range _ (Nat.succ_pos _), sliceY, eval_listPoly, List.length_map,
    List.length_range]
  refine Finset.sum_congr rfl fun j hj => ?_
  rw [getD_map_range _ (Finset.mem_range.mp hj)]

end Slices

end BivariatePolynomial

namespace Churp

/-- `HandoffKind` (`churp/handoff.rs:11-60`). -/
inductive HandoffKind
  | dealingPhase
  | committeeUnchanged
  | committeeChanged
  deriving DecidableEq, Repr

/-- `SecretShare` (`churp/shareholder.rs:107-122`): the identity and the polynomial
`B(id, y)` or `B(x, id)`. -/
structure SecretShare (F : Type) where
  x : F
  p : Polynomial F

/-- `SecretShare::y` (`shareholder.rs:146-150`): the constant term; a polynomial is
never empty, so the `expect` never fails. -/
def SecretShare.y (s : SecretShare F) : F :=
  s.p.a.head s.p.a_ne_nil

/-- `Dealer` (`churp/dealer.rs:19-29`) by its bivariate polynomial; `make_share` does
not read the verification matrix. -/
structure Dealer (F : Type) where
  bp : BivariatePolynomial F

/-- `Dealer::make_share` (`dealer.rs:118-126`): a full share `B(x, y)` in the dealing
phase and in an unchanged committee, a reduced share `B(x, y)` at `y = x` when the
committee changes. -/
def Dealer.makeShare (d : Dealer F) (x : F) (kind : HandoffKind) : SecretShare F :=
  let p := match kind with
    | .dealingPhase => d.bp.evalX x
    | .committeeUnchanged => d.bp.evalX x
    | .committeeChanged => d.bp.evalY x
  ⟨x, p⟩

/-- `Dealer::make_shares` (`dealer.rs:109-115`). -/
def Dealer.makeShares (d : Dealer F) (xs : List F) (kind : HandoffKind) :
    List (SecretShare F) :=
  xs.map (d.makeShare · kind)

/-- `Player` (`churp/player.rs:10-14`). -/
structure Player where
  threshold : UInt8
  kind : HandoffKind

/-- `Player::min_shares` (`player.rs:42-49`): a changing committee holds reduced
shares of a polynomial of twice the degree. -/
def Player.minShares (p : Player) : ℕ :=
  if p.kind = .committeeChanged then 2 * p.threshold.toNat + 1 else p.threshold.toNat + 1

/-- `Player::recover_secret` (`player.rs:22-39`): `∑ c_i y_i`. -/
def Player.recoverSecret (p : Player) (shares : List (SecretShare F)) :
    Option (Except String F) :=
  recoverWith p.minShares (·.x)
    (fun cs shares => (cs.zip shares).foldl (fun secret cs => secret + cs.1 * cs.2.y) 0) shares

/-- The slice the shares of a kind lie on. -/
noncomputable def shareSlice (B : BivariatePolynomial F) : HandoffKind → F[X]
  | .dealingPhase => B.sliceX
  | .committeeUnchanged => B.sliceX
  | .committeeChanged => B.sliceY

omit [DecidableEq F] in
theorem SecretShare.y_eq (s : SecretShare F) : s.y = s.p.a.getD 0 0 := by
  rw [SecretShare.y, List.head_eq_getElem, List.getD_eq_getElem?_getD,
    List.getElem?_eq_getElem (List.length_pos_iff.mpr s.p.a_ne_nil), Option.getD_some]

omit [DecidableEq F] in
theorem y_makeShare (d : Dealer F) (x : F) (kind : HandoffKind) :
    (d.makeShare x kind).y = (shareSlice d.bp kind).eval x := by
  rw [SecretShare.y_eq]
  cases kind with
  | dealingPhase => exact d.bp.getD_evalX x
  | committeeUnchanged => exact d.bp.getD_evalX x
  | committeeChanged => exact d.bp.getD_evalY x

omit [DecidableEq F] in
/-- Both slices have their secret at zero, and fewer coefficients than the player needs
shares when the polynomial has degree `(t, 2t)`. -/
theorem shareSlice_spec (p : Player) {B : BivariatePolynomial F}
    (hdegX : B.degX ≤ p.threshold.toNat) (hdegY : B.degY ≤ 2 * p.threshold.toNat) :
    (shareSlice B p.kind).degree < p.minShares ∧ (shareSlice B p.kind).eval 0 = B.eval 0 0 := by
  rcases p with ⟨t, kind⟩
  simp only at hdegX hdegY
  cases kind with
  | dealingPhase =>
    have h : B.degX + 1 ≤ Player.minShares ⟨t, .dealingPhase⟩ := by
      simp [Player.minShares, hdegX]
    exact ⟨B.degree_sliceX_lt.trans_le (Nat.cast_le.mpr h), B.eval_zero_sliceX⟩
  | committeeUnchanged =>
    have h : B.degX + 1 ≤ Player.minShares ⟨t, .committeeUnchanged⟩ := by
      simp [Player.minShares, hdegX]
    exact ⟨B.degree_sliceX_lt.trans_le (Nat.cast_le.mpr h), B.eval_zero_sliceX⟩
  | committeeChanged =>
    have h : B.degY + 1 ≤ Player.minShares ⟨t, .committeeChanged⟩ := by
      simp [Player.minShares, hdegY]
    exact ⟨B.degree_sliceY_lt.trans_le (Nat.cast_le.mpr h), B.eval_zero_sliceY⟩

/-- Enough shares of a bivariate polynomial of degree `(t, 2t)`, of the player's kind
and at distinct identities, recover `B(0, 0)`. -/
theorem recoverSecret_makeShares (p : Player) {B : BivariatePolynomial F}
    (hdegX : B.degX ≤ p.threshold.toNat) (hdegY : B.degY ≤ 2 * p.threshold.toNat)
    {xs : List F} (hnodup : xs.Nodup) (hlen : p.minShares ≤ xs.length) :
    p.recoverSecret ((Dealer.mk B).makeShares xs p.kind) = some (.ok (B.eval 0 0)) := by
  obtain ⟨hdeg, heval⟩ := shareSlice_spec p hdegX hdegY
  have hxs : ((Dealer.mk B).makeShares xs p.kind).map (·.x) = xs := by
    simp [Dealer.makeShares, Dealer.makeShare, Function.comp_def]
  rw [← heval]
  refine recoverWith_eq_eval (y := SecretShare.y) (fun cs shares => ?_) ⟨0, Polynomial.zero 0⟩
    hdeg (fun sh hsh => ?_) (by simpa [Dealer.makeShares] using hlen) (by rwa [hxs])
  · rw [foldl_add_eq_sum, zero_add]
  · obtain ⟨x, -, rfl⟩ := List.mem_map.mp hsh
    exact y_makeShare _ x p.kind

end Churp

/-! ## Threshold reconstruction -/

/-- Shares of a polynomial with at most `t + 1` coefficients recover its value at zero
when there are at least `t + 1` of them from distinct shareholders, and are an error
otherwise; key shares recover the secret times the hash; refreshing by dealers of
zero-hole polynomials keeps the secret; and a CHURP player recovers `B(0, 0)` from
`t + 1` full or `2t + 1` reduced shares. -/
theorem recoverSecret_threshold :
    (∀ (t : UInt8) (s : F) (P : Polynomial F) (shares : List (Point F)),
      P.size ≤ t.toNat + 1 → P.eval 0 = s → (∀ pt ∈ shares, pt.y = P.eval pt.x) →
      (t.toNat + 1 ≤ shares.length ∧ (shares.map (·.x)).Nodup →
        (Shamir.Player.mk t).recoverSecret shares = some (.ok s)) ∧
      (¬ (t.toNat + 1 ≤ shares.length ∧ (shares.map (·.x)).Nodup) →
        ∃ e, (Shamir.Player.mk t).recoverSecret shares = some (.error e))) ∧
    (∀ (G : Type) [AddCommGroup G] [Module F G] (t : UInt8) (s : F) (P : Polynomial F)
      (hash : G) (points : List (Point F)),
      P.size ≤ t.toNat + 1 → P.eval 0 = s → (∀ pt ∈ points, pt.y = P.eval pt.x) →
      (t.toNat + 1 ≤ points.length ∧ (points.map (·.x)).Nodup →
        (Shamir.Player.mk t).recoverKey (points.map (Kdc.makeKeyShare hash)) =
          some (.ok (s • hash))) ∧
      (¬ (t.toNat + 1 ≤ points.length ∧ (points.map (·.x)).Nodup) →
        ∃ e, (Shamir.Player.mk t).recoverKey (points.map (Kdc.makeKeyShare hash)) =
          some (.error e))) ∧
    (∀ (t : UInt8) (s : F) (P : Polynomial F) (shareholders : List (Shamir.Shareholder F))
      (dealers : List (Shamir.Dealer F)),
      P.size ≤ t.toNat + 1 → P.eval 0 = s →
      (∀ sh ∈ shareholders, sh.share.y = P.eval sh.share.x) →
      t.toNat + 1 ≤ shareholders.length → (shareholders.map (·.share.x)).Nodup →
      (∀ d ∈ dealers, d.poly.size ≤ t.toNat + 1 ∧ d.poly.isZeroHole = true) →
      ∃ refreshed, shareholders.mapM
          (fun sh => sh.proactivize (dealers.map (·.makeShare sh.share.x))) = .ok refreshed ∧
        (Shamir.Player.mk t).recoverSecret (refreshed.map (·.share)) = some (.ok s)) ∧
    (∀ (t : UInt8) (kind : Churp.HandoffKind) (B : BivariatePolynomial F) (xs : List F),
      B.degX = t.toNat → B.degY = 2 * t.toNat → xs.Nodup →
      (if kind = .committeeChanged then 2 * t.toNat + 1 else t.toNat + 1) ≤ xs.length →
      (Churp.Player.mk t kind).recoverSecret ((Churp.Dealer.mk B).makeShares xs kind) =
        some (.ok (B.eval 0 0))) := by
  refine ⟨fun t s P shares hsize hs hy => ⟨fun ⟨hlen, hnodup⟩ => ?_, recoverWith_error⟩,
    fun G _ _ t s P hash points hsize hs hy => ⟨fun ⟨hlen, hnodup⟩ => ?_, fun h => ?_⟩,
    fun t s P shareholders dealers hsize hs hsh hlen hnodup hdealers => ?_,
    fun t kind B xs hdegX hdegY hnodup hlen =>
      Churp.recoverSecret_makeShares ⟨t, kind⟩ hdegX.le hdegY.le hnodup hlen⟩
  all_goals have hdeg : P.toPoly.degree < (Shamir.Player.mk t).minShares :=
    P.degree_toPoly_lt.trans_le (by exact_mod_cast hsize)
  · rw [← hs, ← Polynomial.eval_toPoly]
    exact Shamir.recoverSecret_eq_eval _ hdeg
      (fun pt hpt => by rw [hy pt hpt, Polynomial.eval_toPoly]) hlen hnodup
  · have hxs : (points.map (Kdc.makeKeyShare hash)).map (·.x) = points.map (·.x) := by
      simp [Kdc.makeKeyShare, Function.comp_def]
    rw [← hs, ← Polynomial.eval_toPoly]
    refine Kdc.recoverKey_eq_smul hash hdeg (fun sh hsh => ?_)
      (by simpa [Shamir.Player.minShares] using hlen)
      (by rwa [hxs])
    obtain ⟨pt, hpt, rfl⟩ := List.mem_map.mp hsh
    rw [Kdc.makeKeyShare, hy pt hpt, Polynomial.eval_toPoly]
  · have hxs : (points.map (Kdc.makeKeyShare hash)).map (·.x) = points.map (·.x) := by
      simp [Kdc.makeKeyShare, Function.comp_def]
    unfold Shamir.Player.recoverKey Kdc.recoverKey
    refine recoverWith_error ?_
    rintro ⟨hlen, hnodup⟩
    refine h ⟨?_, ?_⟩
    · simpa [Shamir.Player.minShares] using hlen
    · rwa [← hxs]
  · obtain ⟨refreshed, hrun, hrecover⟩ := Shamir.recoverSecret_proactivize _ hdeg
      (fun sh hmem => by rw [hsh sh hmem, Polynomial.eval_toPoly]) hlen hnodup hdealers
    exact ⟨refreshed, hrun, by rw [hrecover, Polynomial.eval_toPoly, hs]⟩

/-- With threshold one, the two shares `(1, 6)` and `(2, 7)` of `5 + x` recover `5`. -/
theorem recoverSecret_two_shares :
    (Shamir.Player.mk 1).recoverSecret [(⟨1, 6⟩ : Point ℚ), ⟨2, 7⟩] = some (.ok 5) := by
  have hP : (Polynomial.withCoefficients [(5 : ℚ), 1]).a = [5, 1] := rfl
  refine ((recoverSecret_threshold (F := ℚ)).1 1 5 (.withCoefficients [5, 1]) _
    (by simp [Polynomial.size, hP]) (by simp [Polynomial.eval_zero_eq, hP]) ?_).1
    ⟨by decide, by norm_num⟩
  intro pt hpt
  simp only [List.mem_cons, List.not_mem_nil, or_false] at hpt
  rcases hpt with rfl | rfl
  · simp [Polynomial.eval_eq, Polynomial.size, hP, Finset.sum_range_succ]
    norm_num
  · simp [Polynomial.eval_eq, Polynomial.size, hP, Finset.sum_range_succ]
    norm_num

end SecretSharing

end OasisCore
