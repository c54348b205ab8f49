import AccessControl.Proofs.HookedPreloads
import Mathlib.Data.List.Induction

namespace AccessControl

variable {m : Type → Type}

/-- What a hook is told by among the hooks of a policy. -/
def Hook.key (h : Hook m) : String × HookScope :=
  (h.name, h.scope)

inductive Hook.Registration (m : Type → Type) where
  | attach (h : Hook m)
  | attachNew (h : Hook m)
  | detach (name : String) (scope : HookScope)

def Policy.register (policy : Policy m) : Hook.Registration m → Policy m
  | .attach h =>
    match policy.attachHook h with
    | .ok policy' => policy'
    | .error _ => policy
  | .attachNew h => policy.attachNewHook h
  | .detach name scope => policy.detachHook name scope

namespace Hook.Registration

def attached? : Registration m → Option (Hook m)
  | attach h | attachNew h => some h
  | detach _ _ => none

def frees (key : String × HookScope) : Registration m → Bool
  | attach _ | attachNew _ => false
  | detach name scope => key == (name, scope)

/-- Whether the calls leave a hook with the name and the scope: some call attaches one, and no later
call detaches it. -/
def taken (key : String × HookScope) : List (Registration m) → Bool
  | [] => false
  | call :: later =>
    call.attached?.any (·.key == key) && !later.any (frees key) || taken key later

/-- The hook that a call attaches after other calls: its name is free for its scope by then. -/
def effective? (before : List (Registration m)) (call : Registration m) : Option (Hook m) :=
  call.attached?.filter fun h => !taken h.key before

/-- The hook that is left of a call among other calls: no later call detaches it. -/
def lasting? (before : List (Registration m)) (call : Registration m)
    (later : List (Registration m)) : Option (Hook m) :=
  (effective? before call).filter fun h => !later.any (frees h.key)

/-- A call that attaches a hook detaches none. -/
theorem frees_of_attached {call : Registration m} {h : Hook m} (hattached : call.attached? = some h)
    (key : String × HookScope) : call.frees key = false := by
  cases call with
  | attach | attachNew => rfl
  | detach => cases hattached

theorem taken_append_singleton (key : String × HookScope) (calls : List (Registration m))
    (call : Registration m) :
    taken key (calls ++ [call]) =
      (taken key calls && !call.frees key || call.attached?.any (·.key == key)) := by
  induction calls with
  | nil => simp [taken]
  | cons first rest ih =>
    simp only [List.cons_append, taken, ih, List.any_append, List.any_cons, List.any_nil]
    cases call.frees key <;> simp [Bool.or_assoc]

theorem lasting?_nil (before : List (Registration m)) (call : Registration m) :
    lasting? before call [] = effective? before call := by
  rw [lasting?]
  cases effective? before call <;> rfl

theorem lasting?_append_singleton (before : List (Registration m)) (call : Registration m)
    (later : List (Registration m)) (last : Registration m) :
    lasting? before call (later ++ [last]) =
      (lasting? before call later).filter fun h => !last.frees h.key := by
  rw [lasting?, lasting?, Option.filter_filter]
  simp

end Hook.Registration

namespace Policy

open Hook.Registration

theorem hasHook_iff (policy : Policy m) (key : String × HookScope) :
    policy.hasHook key.1 key.2 = true ↔ ∃ h ∈ policy.hooks, h.key = key := by
  change policy.hooks.any (·.key == key) = true ↔ _
  simp

theorem register_attach (policy : Policy m) (h : Hook m) :
    policy.register (.attach h) = policy.attachNewHook h := by
  rw [register, attachHook, attachNewHook]
  cases policy.hasHook h.name h.scope <;> rfl

theorem rules_register (policy : Policy m) (call : Hook.Registration m) :
    (policy.register call).rules = policy.rules := by
  cases call with
  | attach h => rw [register_attach, rules_attachNewHook]
  | attachNew h => rw [register, rules_attachNewHook]
  | detach name scope => rfl

/-- A call takes away what it frees and adds, at the end, what it attaches under a free name. -/
theorem hooks_register (policy : Policy m) (call : Hook.Registration m) :
    (policy.register call).hooks = policy.hooks.filter (fun h => !call.frees h.key) ++
      (call.attached?.filter fun h => !policy.hasHook h.name h.scope).toList := by
  have hattach (h : Hook m) : (policy.attachNewHook h).hooks = policy.hooks ++
      (Option.filter (fun h => !policy.hasHook h.name h.scope) (some h)).toList := by
    rw [attachNewHook, Option.filter_some]
    split <;> simp [*]
  cases call with
  | attach h =>
    rw [register_attach, hattach]
    simp [frees, attached?]
  | attachNew h =>
    rw [register, hattach]
    simp [frees, attached?]
  | detach name scope =>
    rw [attached?, Option.filter_none, Option.toList_none, List.append_nil]
    rfl

theorem hasHook_register (policy : Policy m) (call : Hook.Registration m)
    (key : String × HookScope) :
    (policy.register call).hasHook key.1 key.2 =
      (policy.hasHook key.1 key.2 && !call.frees key || call.attached?.any (·.key == key)) := by
  rw [Bool.eq_iff_iff]
  simp only [Bool.or_eq_true, Bool.and_eq_true, Bool.not_eq_true', hasHook_iff,
    hooks_register, Option.any_eq_true, beq_iff_eq, List.mem_append, List.mem_filter,
    Option.mem_toList, Option.filter_eq_some_iff]
  constructor
  · rintro ⟨h, ⟨hmem, hfrees⟩ | ⟨hattached, -⟩, rfl⟩
    · exact .inl ⟨⟨h, hmem, rfl⟩, hfrees⟩
    · exact .inr ⟨h, hattached, rfl⟩
  · rintro (⟨⟨h, hmem, rfl⟩, hfrees⟩ | ⟨h, hattached, rfl⟩)
    · exact ⟨h, .inl ⟨hmem, hfrees⟩, rfl⟩
    · cases htaken : policy.hasHook h.name h.scope with
      | false => exact ⟨h, .inr ⟨hattached, by rw [htaken]⟩, rfl⟩
      | true =>
        obtain ⟨other, hmem, hkey⟩ := (hasHook_iff policy h.key).1 htaken
        exact ⟨other, .inl ⟨hmem, frees_of_attached hattached other.key⟩, hkey⟩

def registered (policy : Policy m) (calls : List (Hook.Registration m)) : Policy m :=
  calls.foldl register { policy with hooks := [] }

variable {policy : Policy m} {calls : List (Hook.Registration m)}

theorem registered_append_singleton (policy : Policy m)
    (calls : List (Hook.Registration m)) (call : Hook.Registration m) :
    registered policy (calls ++ [call]) = (registered policy calls).register call :=
  List.foldl_append

theorem rules_registered : (registered policy calls).rules = policy.rules := by
  induction calls using List.reverseRecOn with
  | nil => rfl
  | append_singleton calls call ih => rw [registered_append_singleton, rules_register, ih]

theorem hasHook_registered (key : String × HookScope) :
    (registered policy calls).hasHook key.1 key.2 = taken key calls := by
  induction calls using List.reverseRecOn with
  | nil => rfl
  | append_singleton calls call ih =>
    rw [registered_append_singleton, hasHook_register, ih, taken_append_singleton]

theorem distinct_registered : ((registered policy calls).hooks.map Hook.key).Nodup := by
  induction calls using List.reverseRecOn with
  | nil => exact List.nodup_nil
  | append_singleton calls call ih =>
    have hkept : (((registered policy calls).hooks.filter fun h => !call.frees h.key).map
        Hook.key).Nodup := ih.sublist (List.filter_sublist.map _)
    rw [registered_append_singleton, hooks_register]
    cases hadded : call.attached?.filter
        fun h => !(registered policy calls).hasHook h.name h.scope with
    | none =>
      rw [Option.toList_none, List.append_nil]
      exact hkept
    | some h =>
      obtain ⟨-, hfree⟩ := Option.filter_eq_some_iff.1 hadded
      rw [Option.toList_some, List.map_append, List.map_singleton]
      refine List.nodup_append.2 ⟨hkept, List.pairwise_singleton _ _, fun key hkey key' hkey' heq => ?_⟩
      rw [heq, List.mem_singleton.1 hkey'] at hkey
      obtain ⟨other, hother, hkey⟩ := List.mem_map.1 hkey
      have htaken : (registered policy calls).hasHook h.name h.scope = true :=
        (hasHook_iff _ h.key).2 ⟨other, (List.mem_filter.1 hother).1, hkey⟩
      rw [htaken] at hfree
      cases hfree

theorem hooks_registered : (registered policy calls).hooks =
    calls.zipIdx.filterMap fun e => lasting? (calls.take e.2) e.1 (calls.drop (e.2 + 1)) := by
  induction calls using List.reverseRecOn with
  | nil => rfl
  | append_singleton calls call ih =>
    rw [registered_append_singleton, hooks_register, ih, List.zipIdx_append, List.filterMap_append,
      List.filter_filterMap]
    congr 1
    · refine List.filterMap_congr fun e hmem => ?_
      have hlt : e.2 < calls.length := by simpa using (List.mem_zipIdx hmem).2.1
      rw [List.take_append_of_le_length (Nat.le_of_lt hlt), List.drop_append_of_le_length hlt,
        lasting?_append_singleton]
    · have hfree (h : Hook m) : (registered policy calls).hasHook h.name h.scope = taken h.key calls :=
        hasHook_registered h.key
      have hlast : lasting? ((calls ++ [call]).take calls.length) call
          ((calls ++ [call]).drop (calls.length + 1)) = effective? calls call := by
        rw [List.take_left, List.drop_eq_nil_of_le (by simp), lasting?_nil]
      simp only [List.zipIdx_singleton, Nat.zero_add, List.filterMap_cons, List.filterMap_nil, hlast,
        hfree]
      rfl

theorem attachHook_eq_error_iff {h : Hook m} {e : AuthorizationError} :
    policy.attachHook h = .error e ↔
      e = .duplicateHook h.name h.scope ∧ ∃ other ∈ policy.hooks, other.key = h.key := by
  rw [attachHook, ← hasHook_iff, Hook.key]
  split
  · next htaken => simp [htaken, eq_comm]
  · next hfree => simp [hfree]

theorem hooks_attachNewHook_eq_iff {h : Hook m} :
    (policy.attachNewHook h).hooks = policy.hooks ↔ ∃ other ∈ policy.hooks, other.key = h.key := by
  rw [attachNewHook, ← hasHook_iff, Hook.key]
  split
  · next htaken => simp [htaken]
  · next hfree => simp [hfree]

end Policy

/-- Whatever hooks are attached and detached, no two hooks of the policy share their name and their
scope. A hook is refused, with an error or in silence, exactly where there is such a hook. What the
policy has are the hooks that were attached and not detached since, in the order in which they were
attached, and its rules are what they were. -/
theorem registrations_keep_order (policy : Policy m) (calls : List (Hook.Registration m)) :
    (Policy.registered policy calls).rules = policy.rules ∧
    ((Policy.registered policy calls).hooks.map Hook.key).Nodup ∧
    (∀ h, (∀ e, (Policy.registered policy calls).attachHook h = .error e ↔
        e = .duplicateHook h.name h.scope ∧
          ∃ other ∈ (Policy.registered policy calls).hooks, other.key = h.key) ∧
      (((Policy.registered policy calls).attachNewHook h).hooks =
          (Policy.registered policy calls).hooks ↔
        ∃ other ∈ (Policy.registered policy calls).hooks, other.key = h.key)) ∧
    (Policy.registered policy calls).hooks = calls.zipIdx.filterMap fun e =>
      Hook.Registration.lasting? (calls.take e.2) e.1 (calls.drop (e.2 + 1)) :=
  ⟨Policy.rules_registered, Policy.distinct_registered,
    fun _ => ⟨fun _ => Policy.attachHook_eq_error_iff, Policy.hooks_attachNewHook_eq_iff⟩,
    Policy.hooks_registered⟩

namespace Forum

/-- A hook that is detached and attached again goes to the end, while the hook of its name for
another scope keeps its place. -/
example : ((Policy.registered policy [.attach keeper,
      .attach { keeper with scope := .type ⟨"post"⟩ }, .attach closing, .attachNew keeper,
      .detach "keeper" .all, .attachNew keeper]).hooks.map Hook.key) =
    [("keeper", .type ⟨"post"⟩), ("closing", .type ⟨"post"⟩), ("keeper", .all)] := by
  decide

end Forum

end AccessControl
