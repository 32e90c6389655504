import BatchingCache.Cache.Basic
import Mathlib.Data.List.Basic
import Mathlib.Data.List.DropRight
/-!
# Namespaces of caches

A cache that is built with a namespace puts its keys behind the name of that, with no blanks at its
ends, and the delimiter.
-/

namespace BatchingCache

variable {ns ns' : Namespace} {key : String}

/-! ## Names without blanks at their ends -/

theorem Text.trimList_trimList {α : Type} (p : α → Bool) (xs : List α) :
    trimList p (trimList p xs) = trimList p xs := by
  have htrim : ∀ ys, trimList p ys = (ys.dropWhile p).rdropWhile p := fun _ => rfl
  have hfront : ((xs.dropWhile p).rdropWhile p).dropWhile p = (xs.dropWhile p).rdropWhile p := by
    rw [List.dropWhile_eq_self_iff]
    intro hpos
    rw [(List.rdropWhile_prefix p (xs.dropWhile p)).getElem hpos]
    exact List.dropWhile_get_zero_not p xs _
  rw [htrim, htrim, hfront, List.rdropWhile_idempotent]

theorem Text.trim_trim (s : String) : trim (trim s) = trim s := by
  unfold trim
  rw [String.toList_ofList, trimList_trimList]

theorem Config.ofName_namespaceName {config : Config} {name : String}
    (h : config.namespaceName = some name) :
    Namespace.ofName config.namespaceName = ⟨name⟩ ∧ name ≠ "" := by
  rw [h]
  unfold Config.namespaceName at h
  obtain ⟨hname, hne⟩ := Option.filter_eq_some_iff.1 h
  obtain ⟨full, -, rfl⟩ := Option.map_eq_some_iff.1 hname
  refine ⟨?_, by simpa using hne⟩
  exact congrArg Namespace.mk (Text.trim_trim full)

theorem Cache.build_eq {hasExecutor : Bool} {config : Config} {c : Cache}
    (h : Cache.build hasExecutor config = .ok c) :
    c.tenant = Namespace.ofName config.namespaceName ∧
      c.scanLimit = UInt64.ofNat config.effectiveScanLimit := by
  unfold Cache.build at h
  cases hstart : Pipeline.start hasExecutor config.pipelineSize config.batchRetries with
  | error e =>
    rw [hstart] at h
    cases h
  | ok p =>
    rw [hstart] at h
    cases h
    exact ⟨rfl, rfl⟩

/-! ## The keys of a namespace -/

def Namespace.Owns (ns : Namespace) (key : String) : Prop :=
  ∃ rest, key = ns.name ++ Namespace.delimiter ++ rest

namespace Namespace

theorem owns_wireKey (hns : ns.name ≠ "") (key : String) : ns.Owns (ns.wireKey key true) := by
  refine ⟨key, ?_⟩
  simp [wireKey, hns]

/-- No key is in two namespaces of which neither begins with the other. -/
theorem not_owns_of_owns (h : ¬ ns.Owns (ns'.name ++ delimiter))
    (h' : ¬ ns'.Owns (ns.name ++ delimiter)) (hkey : ns.Owns key) : ¬ ns'.Owns key := by
  rintro ⟨rest', hrest'⟩
  obtain ⟨rest, rfl⟩ := hkey
  have hlist : ns.name.toList ++ delimiter.toList ++ rest.toList =
      ns'.name.toList ++ delimiter.toList ++ rest'.toList := by
    simpa only [String.toList_append] using congrArg String.toList hrest'
  rcases List.append_eq_append_iff.1 hlist with ⟨more, hmore, -⟩ | ⟨more, hmore, -⟩
  · refine h ⟨String.ofList more, String.toList_inj.1 ?_⟩
    simpa only [String.toList_append, String.toList_ofList] using hmore
  · refine h' ⟨String.ofList more, String.toList_inj.1 ?_⟩
    simpa only [String.toList_append, String.toList_ofList] using hmore

end Namespace

end BatchingCache
