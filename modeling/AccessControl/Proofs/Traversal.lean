import Mathlib.Data.List.Forall2

namespace AccessControl

variable {ε α β : Type}

theorem bind_eq_ok_iff (x : Except ε α) (f : α → Except ε β) (b : β) :
    (x >>= f) = .ok b ↔ ∃ a, x = .ok a ∧ f a = .ok b := by
  cases x with
  | error e => constructor <;> simp [bind, Except.bind]
  | ok a => exact ⟨fun h => ⟨a, rfl, h⟩, fun ⟨_, h, h'⟩ => Except.ok.inj h ▸ h'⟩

theorem discard_eq_ok_iff (x : Except ε α) (u : PUnit) :
    discard x = .ok u ↔ ∃ a, x = .ok a := by
  cases x with
  | error e => simp [discard, Functor.mapConst, Except.map]
  | ok a => exact ⟨fun _ => ⟨a, rfl⟩, fun _ => rfl⟩

section MapM

variable {f : α → Except ε β} {xs : List α} {ys : List β}

theorem mapM_eq_ok_iff :
    xs.mapM f = .ok ys ↔ List.Forall₂ (fun x y => f x = .ok y) xs ys := by
  induction xs generalizing ys with
  | nil =>
    rw [List.forall₂_nil_left_iff]
    exact ⟨fun h => (Except.ok.inj h).symm, fun h => h ▸ rfl⟩
  | cons x rest ih =>
    simp only [List.mapM_cons, bind_eq_ok_iff, List.forall₂_cons_left_iff]
    constructor
    · rintro ⟨y, hy, others, hothers, hys⟩
      exact ⟨y, others, hy, ih.1 hothers, (Except.ok.inj hys).symm⟩
    · rintro ⟨y, others, hy, hothers, rfl⟩
      exact ⟨y, hy, others, ih.2 hothers, rfl⟩

theorem forall₂_of_mapM_eq_ok {R : α → β → Prop} (h : xs.mapM f = .ok ys)
    (hf : ∀ x ∈ xs, ∀ y, f x = .ok y → R x y) : List.Forall₂ R xs ys := by
  rw [mapM_eq_ok_iff] at h
  induction h with
  | nil => exact .nil
  | cons hx _ ih =>
    obtain ⟨hfirst, hrest⟩ := List.forall_mem_cons.1 hf
    exact .cons (hfirst _ hx) (ih hrest)

theorem exists_of_mem_of_forall₂ {R : α → β → Prop} (h : List.Forall₂ R xs ys) {x : α}
    (hx : x ∈ xs) : ∃ y ∈ ys, R x y := by
  induction h with
  | nil => cases hx
  | cons hfirst _ ih =>
    rcases List.mem_cons.1 hx with rfl | hx
    · exact ⟨_, List.mem_cons_self, hfirst⟩
    · obtain ⟨y, hy, hxy⟩ := ih hx
      exact ⟨y, List.mem_cons_of_mem _ hy, hxy⟩

theorem exists_of_mapM_eq_ok (h : xs.mapM f = .ok ys) {x : α} (hx : x ∈ xs) :
    ∃ y ∈ ys, f x = .ok y :=
  exists_of_mem_of_forall₂ (mapM_eq_ok_iff.1 h) hx

theorem exists_of_mem_mapM (h : xs.mapM f = .ok ys) {y : β} (hy : y ∈ ys) :
    ∃ x ∈ xs, f x = .ok y :=
  exists_of_mem_of_forall₂ (mapM_eq_ok_iff.1 h).flip hy

theorem exists_mapM_eq_ok (h : ∀ x ∈ xs, ∃ y, f x = .ok y) : ∃ ys, xs.mapM f = .ok ys := by
  induction xs with
  | nil => exact ⟨[], rfl⟩
  | cons x rest ih =>
    obtain ⟨⟨y, hy⟩, hrest⟩ := List.forall_mem_cons.1 h
    obtain ⟨ys, hys⟩ := ih hrest
    rw [List.mapM_cons, hy, hys]
    exact ⟨_, rfl⟩

end MapM

section ForM

variable {f : α → Except ε Unit} {xs : List α}

theorem forM_eq_ok_iff {u : Unit} : xs.forM f = .ok u ↔ ∀ x ∈ xs, f x = .ok () := by
  induction xs with
  | nil => exact iff_of_true rfl nofun
  | cons x rest ih =>
    rw [List.forM, bind_eq_ok_iff, List.forall_mem_cons, ← ih]
    exact ⟨fun ⟨_, hx, hrest⟩ => ⟨hx, hrest⟩, fun ⟨hx, hrest⟩ => ⟨(), hx, hrest⟩⟩

end ForM

section AnyM

variable {test : α → Except ε Bool} {xs : List α}

theorem anyM_eq_any {pass : α → Bool} (h : ∀ x ∈ xs, test x = .ok (pass x)) :
    xs.anyM test = .ok (xs.any pass) := by
  induction xs with
  | nil => rfl
  | cons x rest ih =>
    obtain ⟨hx, hrest⟩ := List.forall_mem_cons.1 h
    rw [List.anyM, List.any_cons, hx, ih hrest]
    cases pass x <;> rfl

theorem exists_anyM (h : ∀ x ∈ xs, ∃ pass, test x = .ok pass) :
    ∃ found, xs.anyM test = .ok found := by
  induction xs with
  | nil => exact ⟨false, rfl⟩
  | cons x rest ih =>
    obtain ⟨⟨pass, hpass⟩, hrest⟩ := List.forall_mem_cons.1 h
    rw [List.anyM, hpass]
    cases pass with
    | true => exact ⟨true, rfl⟩
    | false => exact ih hrest

theorem anyM_eq_ok_of_test {test' : α → Except ε Bool} {found : Bool}
    (h : ∀ x ∈ xs, ∀ pass, test x = .ok pass → test' x = .ok pass)
    (hfound : xs.anyM test = .ok found) : xs.anyM test' = .ok found := by
  induction xs with
  | nil => exact hfound
  | cons x rest ih =>
    obtain ⟨hx, hrest⟩ := List.forall_mem_cons.1 h
    rw [List.anyM, bind_eq_ok_iff] at hfound
    obtain ⟨pass, hpass, hfound⟩ := hfound
    rw [List.anyM, hx pass hpass]
    cases pass with
    | true => exact hfound
    | false => exact ih hrest hfound

end AnyM

def Except.Within (E : ε → Prop) (x : Except ε α) : Prop :=
  ∀ e, x = .error e → E e

namespace Except.Within

variable {E : ε → Prop} {x : Except ε α}

theorem ok (a : α) : Within E (.ok a : Except ε α) :=
  nofun

theorem error {e : ε} (h : E e) : Within E (.error e : Except ε α) :=
  fun _ heq => Except.error.inj heq ▸ h

theorem bind {f : α → Except ε β} (hx : Within E x) (hf : ∀ a, x = .ok a → Within E (f a)) :
    Within E (x >>= f) := by
  cases x with
  | error e => exact error (hx e rfl)
  | ok a => exact hf a rfl

theorem discard (hx : Within E x) : Within E (discard x : Except ε PUnit) := by
  cases x with
  | error e => exact error (hx e rfl)
  | ok a => exact ok _

theorem mapM {f : α → Except ε β} {xs : List α} (h : ∀ x ∈ xs, Within E (f x)) :
    Within E (xs.mapM f) := by
  induction xs with
  | nil => exact ok _
  | cons x rest ih =>
    obtain ⟨hx, hrest⟩ := List.forall_mem_cons.1 h
    rw [List.mapM_cons]
    exact hx.bind fun _ _ => (ih hrest).bind fun _ _ => ok _

theorem foldlM {ς : Type} {f : β → α → StateT ς (Except ε) β} {xs : List α}
    (h : ∀ b s, ∀ a ∈ xs, Within E ((f b a).run s)) (b : β) (s : ς) :
    Within E ((xs.foldlM f b).run s) := by
  induction xs generalizing b s with
  | nil => exact ok _
  | cons a rest ih =>
    rw [List.foldlM_cons, StateT.run_bind]
    exact (h b s a List.mem_cons_self).bind fun out _ =>
      ih (fun b s x hx => h b s x (List.mem_cons_of_mem a hx)) out.1 out.2

end Except.Within

def Except.passes : Except ε Bool → Bool
  | .ok pass => pass
  | .error _ => false

theorem Except.passes_eq_true {x : Except ε Bool} : Except.passes x = true ↔ x = .ok true := by
  rcases x with _ | _ | _ <;> simp [passes]

end AccessControl
