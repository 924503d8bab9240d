import Mathlib.Data.Fintype.Basic
import Mathlib.Data.List.Nodup
import Olaf.Library.Workers
/-!
# Records written in several calls

Workers append to one log, call by call; a record takes some calls in a row. Every order of the calls that keeps the
order of each worker can come out of a run (`logs_iff`). `whole_iff`: no order cuts a record exactly when a worker with
a record of two calls or more is the only one that writes.
-/

namespace Records

variable {W C : Type} [DecidableEq W]

/-- What a worker has in a log. -/
def own (w : W) (log : List (W × C)) : List C := (log.filter (·.1 = w)).map Prod.snd

/-- The calls of a worker. -/
def tagged (r : W × List C) : List (W × C) := r.2.map (r.1, ·)

/-- The log is one record after the other, those of each worker in their order. -/
def Whole (records : W → List (List C)) (log : List (W × C)) : Prop :=
  ∃ order : List (W × List C), (∀ w, own w order = records w) ∧ log = order.flatMap tagged

@[simp] theorem own_nil (w : W) : own w ([] : List (W × C)) = [] := rfl

@[simp] theorem own_append (w : W) (log log' : List (W × C)) : own w (log ++ log') = own w log ++ own w log' := by
  simp [own]

theorem own_cons_self (w : W) (c : C) (log : List (W × C)) : own w ((w, c) :: log) = c :: own w log := by
  simp [own]

theorem own_cons_of_ne {v w : W} (h : v ≠ w) (c : C) (log : List (W × C)) : own w ((v, c) :: log) = own w log := by
  simp [own, h]

theorem own_eq_nil {w : W} {log : List (W × C)} (h : ∀ x ∈ log, x.1 ≠ w) : own w log = [] := by
  rw [own, List.map_eq_nil_iff, List.filter_eq_nil_iff]
  intro x hx
  simpa using h x hx

@[simp] theorem own_tagged_self (w : W) (cs : List C) : own w (tagged (w, cs)) = cs := by
  induction cs with
  | nil => rfl
  | cons c cs ih =>
    rw [tagged, List.map_cons, own_cons_self]
    exact congrArg (c :: ·) ih

omit [DecidableEq W] in
theorem fst_of_mem_tagged {r : W × List C} {x : W × C} (h : x ∈ tagged r) : x.1 = r.1 := by
  obtain ⟨c, _, rfl⟩ := List.mem_map.1 h
  rfl

theorem own_tagged_of_ne {v w : W} (h : v ≠ w) (cs : List C) : own w (tagged (v, cs)) = [] :=
  own_eq_nil fun _ hx => (fst_of_mem_tagged hx).symm ▸ h

/-- The calls of a worker in a log of records. -/
theorem own_flatMap_tagged (w : W) (order : List (W × List C)) : own w (order.flatMap tagged) = (own w order).flatten := by
  induction order with
  | nil => rfl
  | cons r order ih =>
    obtain ⟨v, cs⟩ := r
    rw [List.flatMap_cons, own_append, ih]
    by_cases hv : v = w
    · subst hv
      rw [own_tagged_self, own_cons_self, List.flatten_cons]
    · rw [own_tagged_of_ne hv, own_cons_of_ne hv, List.nil_append]

omit [DecidableEq W] in
/-- Where the writer changes, a record ends. -/
theorem split_at_change {v w : W} (hne : v ≠ w) {c c' : C} {before after : List (W × C)} {order : List (W × List C)}
    (h : order.flatMap tagged = before ++ (v, c) :: (w, c') :: after) :
    ∃ done rest, order = done ++ rest ∧ done.flatMap tagged = before ++ [(v, c)] := by
  induction order generalizing before with
  | nil => simp at h
  | cons r order ih =>
    rw [List.flatMap_cons, show before ++ (v, c) :: (w, c') :: after = (before ++ [(v, c)]) ++ (w, c') :: after by simp,
      List.append_eq_append_iff] at h
    rcases h with ⟨more, hbefore, horder⟩ | ⟨more, hr, hafter⟩
    · cases more using List.reverseRecOn with
      | nil => exact ⟨[r], order, rfl, by simpa using hbefore.symm⟩
      | append_singleton more x =>
        rw [← List.append_assoc] at hbefore
        obtain ⟨hbefore, hx⟩ := List.append_inj' hbefore rfl
        cases hx
        obtain ⟨done, rest, rfl, hdone⟩ := @ih more (by simpa using horder)
        exact ⟨r :: done, rest, rfl, by rw [List.flatMap_cons, hdone, hbefore, List.append_assoc]⟩
    · cases more with
      | nil => exact ⟨[r], order, rfl, by simpa using hr⟩
      | cons x more =>
        -- the record would have calls of both
        cases hafter
        have hv := fst_of_mem_tagged (r := r) (x := (v, c)) (by rw [hr]; simp)
        have hw := fst_of_mem_tagged (r := r) (x := (w, c')) (by rw [hr]; simp)
        exact absurd (hv.trans hw.symm) hne

theorem own_map {l : List W} (hl : l.Nodup) (f : W → C) (w : W) :
    own w (l.map fun v => (v, f v)) = if w ∈ l then [f w] else [] := by
  induction l with
  | nil => rfl
  | cons v l ih =>
    rw [List.nodup_cons] at hl
    rw [List.map_cons]
    by_cases hv : v = w
    · subst hv
      rw [own_cons_self, ih hl.2, if_neg hl.1, if_pos List.mem_cons_self]
    · rw [own_cons_of_ne hv, ih hl.2]
      simp [Ne.symm hv]

/-- A record of two calls can be cut by a call of another worker. -/
theorem not_whole_of_cut {records : W → List (List C)} {v w : W} (hne : v ≠ w) {c c' d : C} {r : List C}
    (before after : List (List C)) (hv : records v = before ++ (c :: c' :: r) :: after) (rest : List (W × C)) :
    ¬ Whole records (tagged (v, before.flatten) ++ (v, c) :: (w, d) :: rest) := by
  rintro ⟨order, hown, hlog⟩
  obtain ⟨done, rest', rfl, hdone⟩ := split_at_change hne hlog.symm
  have hprefix : own v done ++ own v rest' = before ++ (c :: c' :: r) :: after := by
    rw [← own_append, hown, hv]
  have hlen := congrArg (fun l => (own v l).length) hdone
  simp only [own_flatMap_tagged, own_append, own_tagged_self, own_cons_self, own_nil, List.length_append,
    List.length_singleton] at hlen
  rcases List.append_eq_append_iff.1 hprefix with ⟨more, hbefore, _⟩ | ⟨more, hmore, htail⟩
  · rw [hbefore, List.flatten_append, List.length_append] at hlen
    omega
  · cases more with
    | nil =>
      rw [hmore, List.append_nil] at hlen
      omega
    | cons r' more =>
      rw [List.cons_append, List.cons.injEq] at htail
      rw [hmore, ← htail.1] at hlen
      simp only [List.flatten_append, List.flatten_cons, List.length_append, List.length_cons] at hlen
      omega

omit [DecidableEq W] in
theorem tagged_flatten (v : W) (rs : List (List C)) : (tagged (v, rs)).flatMap tagged = tagged (v, rs.flatten) := by
  induction rs with
  | nil => rfl
  | cons r rs ih =>
    rw [tagged, List.map_cons, List.flatMap_cons, List.flatten_cons]
    exact (congrArg (tagged (v, r) ++ ·) ih).trans List.map_append.symm

theorem eq_tagged {v : W} {log : List (W × C)} (h : ∀ x ∈ log, x.1 = v) : log = tagged (v, own v log) := by
  induction log with
  | nil => rfl
  | cons x log ih =>
    obtain ⟨u, c⟩ := x
    obtain rfl : u = v := h _ List.mem_cons_self
    rw [own_cons_self, tagged, List.map_cons]
    exact congrArg _ (ih fun x hx => h x (List.mem_cons_of_mem _ hx))

/-- The log of one worker. -/
theorem whole_of_alone {records : W → List (List C)} {v : W} (h : ∀ w, w ≠ v → records w = []) {log : List (W × C)}
    (hlog : ∀ w, own w log = (records w).flatten) : Whole records log := by
  have hv : ∀ x ∈ log, x.1 = v := by
    intro x hx
    by_contra hw
    have hmem : x.2 ∈ own x.1 log := List.mem_map.2 ⟨x, List.mem_filter.2 ⟨hx, by simp⟩, rfl⟩
    rw [hlog, h _ hw] at hmem
    simp at hmem
  refine ⟨tagged (v, records v), fun w => ?_, ?_⟩
  · by_cases hw : v = w
    · subst hw
      exact own_tagged_self ..
    · rw [own_tagged_of_ne hw, h w (Ne.symm hw)]
  · rw [tagged_flatten, ← hlog]
    exact eq_tagged hv

/-- A log of records of one call. -/
theorem whole_of_short {records : W → List (List C)} (h : ∀ w, ∀ r ∈ records w, r.length = 1) {log : List (W × C)}
    (hlog : ∀ w, own w log = (records w).flatten) : Whole records log := by
  have hsingle : ∀ rs : List (List C), (∀ r ∈ rs, r.length = 1) → rs.flatten.map ([·]) = rs := by
    intro rs hrs
    induction rs with
    | nil => rfl
    | cons r rs ih =>
      obtain ⟨c, rfl⟩ := List.length_eq_one_iff.1 (hrs r List.mem_cons_self)
      rw [List.flatten_cons, List.map_append, ih fun r hr => hrs r (List.mem_cons_of_mem _ hr)]
      rfl
  refine ⟨log.map fun x => (x.1, [x.2]), fun w => ?_, ?_⟩
  · rw [← hsingle (records w) (h w), ← hlog, own, own, List.filter_map, List.map_map, List.map_map]
    rfl
  · rw [List.flatMap_map]
    exact (List.flatMap_singleton' log).symm

/-- With at most one record each, the log is the records in an order of their workers. -/
theorem Whole.exists_order {record : W → Option (List C)} {log : List (W × C)} (h : Whole (fun w => (record w).toList) log) :
    ∃ order : List W, order.Nodup ∧ (∀ w, w ∈ order ↔ (record w).isSome) ∧
      log.map Prod.snd = order.flatMap fun w => (record w).getD [] := by
  obtain ⟨pairs, hown, rfl⟩ := h
  replace hown : ∀ w, own w pairs = (record w).toList := hown
  have hcount : ∀ w, (pairs.map Prod.fst).count w = (record w).toList.length := by
    intro w
    rw [← hown, own, List.length_map, List.count, List.countP_map, List.countP_eq_length_filter]
    rfl
  have hpair : ∀ r ∈ pairs, r.2 = (record r.1).getD [] := by
    intro r hr
    have hmem : r.2 ∈ own r.1 pairs := List.mem_map.2 ⟨r, List.mem_filter.2 ⟨hr, by simp⟩, rfl⟩
    rw [hown, Option.mem_toList] at hmem
    rw [hmem, Option.getD_some]
  refine ⟨pairs.map Prod.fst, List.nodup_iff_count_le_one.2 fun w => ?_, fun w => ?_, ?_⟩
  · rw [hcount]
    cases record w <;> simp
  · rw [← List.count_pos_iff, hcount]
    cases record w <;> simp
  · rw [List.map_flatMap, List.flatMap_map]
    refine List.flatMap_congr fun r hr => ?_
    rw [← hpair r hr, tagged, List.map_map]
    exact List.map_id _

/-- The calls of all workers but two. -/
theorem exists_others [Fintype W] (calls : W → List C) (v w : W) :
    ∃ rest : List (W × C), ∀ u, own u rest = if u ≠ v ∧ u ≠ w then calls u else [] := by
  let others := Finset.univ.toList.filter fun u => u ≠ v ∧ u ≠ w
  refine ⟨(others.map fun u => (u, calls u)).flatMap tagged, fun u => ?_⟩
  rw [own_flatMap_tagged, own_map ((Finset.nodup_toList _).filter _)]
  by_cases hu : u ≠ v ∧ u ≠ w
  · rw [if_pos hu, if_pos (by simp [hu]), List.flatten_singleton]
  · rw [if_neg hu, if_neg (by simp only [List.mem_filter, decide_eq_true_iff]; exact fun h => hu h.2), List.flatten_nil]

/-- An order of the calls that cuts a record of one worker by a call of another. -/
theorem exists_cut [Fintype W] {records : W → List (List C)} {v w : W} (hvw : v ≠ w) {r : List C} (hr : r ∈ records v)
    (hlen : 2 ≤ r.length) (hw : (records w).flatten ≠ []) :
    ∃ log, (∀ u, own u log = (records u).flatten) ∧ ¬ Whole records log := by
  obtain ⟨before, after, hv⟩ := List.append_of_mem hr
  obtain ⟨c, c', r, rfl⟩ : ∃ c c' r', r = c :: c' :: r' := by
    cases r with
    | nil => simp at hlen
    | cons c r =>
      cases r with
      | nil => simp at hlen
      | cons c' r => exact ⟨c, c', r, rfl⟩
  obtain ⟨d, ds, hds⟩ := List.exists_cons_of_ne_nil hw
  obtain ⟨rest, hrest⟩ := exists_others (fun u => (records u).flatten) v w
  refine ⟨tagged (v, before.flatten) ++ (v, c) :: (w, d) ::
    (tagged (w, ds) ++ tagged (v, c' :: r ++ after.flatten) ++ rest), fun u => ?_, not_whole_of_cut hvw before after hv _⟩
  rw [own_append]
  by_cases huv : u = v
  · subst huv
    rw [own_cons_self, own_cons_of_ne (Ne.symm hvw)]
    simp [hrest, own_tagged_of_ne (Ne.symm hvw), hv]
  · by_cases huw : u = w
    · subst huw
      rw [own_cons_of_ne (Ne.symm huv), own_cons_self]
      simp [hrest, own_tagged_of_ne (Ne.symm huv), hds]
    · rw [own_cons_of_ne (Ne.symm huv), own_cons_of_ne (Ne.symm huw)]
      simp [hrest, own_tagged_of_ne (Ne.symm huv), own_tagged_of_ne (Ne.symm huw), huv, huw]

/-- **Every order of the calls leaves the records whole exactly when a worker with a record of two calls is alone.** -/
theorem whole_iff [Fintype W] {records : W → List (List C)} (hne : ∀ w, [] ∉ records w) :
    (∀ log, (∀ w, own w log = (records w).flatten) → Whole records log) ↔
      ∀ v w, v ≠ w → (∃ r ∈ records v, 2 ≤ r.length) → records w = [] := by
  constructor
  · rintro hall v w hvw ⟨r, hr, hlen⟩
    by_contra hw
    have hcalls : (records w).flatten ≠ [] := by
      refine fun hnil => hw (List.eq_nil_iff_forall_not_mem.2 fun l hl => hne w ?_)
      rwa [← List.flatten_eq_nil_iff.1 hnil l hl]
    obtain ⟨log, hlog, hcut⟩ := exists_cut hvw hr hlen hcalls
    exact hcut (hall log hlog)
  · intro hcond log hlog
    by_cases hlong : ∃ v, ∃ r ∈ records v, 2 ≤ r.length
    · -- one worker writes all of it
      obtain ⟨v, hr⟩ := hlong
      exact whole_of_alone (fun w hw => hcond v w hw.symm hr) hlog
    · -- every call is a record
      refine whole_of_short (fun w r hr => ?_) hlog
      have hpos : r ≠ [] := fun hnil => hne w (hnil ▸ hr)
      have hshort : ¬ 2 ≤ r.length := fun hlen => hlong ⟨w, r, hr, hlen⟩
      have := List.length_pos_iff.2 hpos
      omega

/-! ## Runs -/

/-- A step is the next call of a worker. -/
def writers (W C : Type) : Workers W Unit (List (W × C)) (List C) where
  step w _ log
    | [] => none
    | c :: rest => some (log ++ [(w, c)], rest)

def start (records : W → List (List C)) : Workers.State W (List (W × C)) (List C) := ⟨[], fun w => (records w).flatten⟩

variable {records : W → List (List C)} {schedule : List (W × Unit)} {s : Workers.State W (List (W × C)) (List C)}

/-- What a worker has written and what it has left are its calls. -/
theorem own_append_phase (h : (writers W C).run (start records) schedule = some s) (w : W) :
    own w s.shared ++ s.phase w = (records w).flatten := by
  refine Workers.run_keeps (I := fun s => ∀ w, own w s.shared ++ s.phase w = (records w).flatten)
    (fun s x s' hs hn => ?_) (fun w => rfl) h w
  obtain ⟨v, a⟩ := x
  obtain ⟨log, rest, hstep, rfl⟩ := Workers.next_cases hn
  intro w
  have hw := hs w
  cases hp : s.phase v with
  | nil =>
    rw [hp] at hstep
    cases hstep
  | cons c cs =>
    rw [hp] at hstep
    cases hstep
    by_cases hv : v = w
    · subst hv
      rw [hp] at hw
      simpa [own_cons_self] using hw
    · simpa [own_cons_of_ne hv, Ne.symm hv] using hw

/-- A log is written by its workers in turn. -/
theorem run_log (rest log : List (W × C)) :
    (writers W C).run ⟨log, fun w => own w rest⟩ (rest.map fun x => (x.1, ())) = some ⟨log ++ rest, fun _ => []⟩ := by
  induction rest generalizing log with
  | nil => simp [Workers.run]
  | cons x rest ih =>
    obtain ⟨w, c⟩ := x
    have hphase : Function.update (fun v => own v ((w, c) :: rest)) w (own w rest) = fun v => own v rest := by
      funext v
      by_cases hv : v = w
      · subst hv
        rw [Function.update_self]
      · rw [Function.update_of_ne hv, own_cons_of_ne (Ne.symm hv)]
    have hnext : (writers W C).next ⟨log, fun v => own v ((w, c) :: rest)⟩ (w, ()) =
        some ⟨log ++ [(w, c)], fun v => own v rest⟩ := by
      rw [← hphase, Workers.next]
      simp only [own_cons_self]
      rfl
    rw [List.map_cons, Workers.run, hnext]
    simpa using ih (log ++ [(w, c)])

/-- **The logs of whole runs** are the orders of the calls. -/
theorem logs_iff {log : List (W × C)} :
    (∃ schedule, (writers W C).run (start records) schedule = some ⟨log, fun _ => []⟩) ↔
      ∀ w, own w log = (records w).flatten := by
  constructor
  · rintro ⟨schedule, hrun⟩ w
    simpa using own_append_phase hrun w
  · intro h
    have hstart : start records = ⟨[], fun w => own w log⟩ := congrArg _ (funext fun w => (h w).symm)
    exact ⟨_, hstart ▸ run_log log []⟩

/-- **No run cuts a record exactly when a worker with a record of two calls or more is the only one that writes.** -/
theorem runs_whole_iff [Fintype W] (hne : ∀ w, [] ∉ records w) :
    (∀ schedule s, (writers W C).run (start records) schedule = some s → (∀ w, s.phase w = []) → Whole records s.shared) ↔
      ∀ v w, v ≠ w → (∃ r ∈ records v, 2 ≤ r.length) → records w = [] := by
  rw [← whole_iff hne]
  constructor
  · intro h log hlog
    obtain ⟨schedule, hrun⟩ := logs_iff.2 hlog
    exact h schedule _ hrun fun _ => rfl
  · intro h schedule s hrun hend
    refine h _ fun w => ?_
    rw [← own_append_phase hrun w, hend w, List.append_nil]

end Records
