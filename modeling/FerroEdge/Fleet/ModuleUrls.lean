import FerroEdge.ControlPlane.System
import FerroEdge.Machine.Url

/-!
# Modules are fetched by their names

An edge node asks for a module with a URL that it makes of the name and the version, and the
control plane sends such a URL along with a task.  Neither escapes them, and an upload accepts
any two strings.  So the request comes back to the same module only if both are a path segment
already, which `moduleUrl_iff` makes precise.
-/

namespace FerroEdge.Fleet

open Machine Machine.Url ControlPlane

/-! ## URLs and routes -/

/-- The URL that `ModuleDownloader::download` makes. -/
def moduleUrl (controlPlaneUrl name version : String) : String :=
  s!"{controlPlaneUrl}/modules/{name}/{version}"

inductive Method where
  | get
  | post
deriving DecidableEq, Repr

/-- The handlers of `api/handlers.rs`. -/
inductive Handler where
  | health
  | metrics
  | submitTask
  | submitTasksBatch
  | getTask
  | registerNode
  | listNodes
  | uploadModule
  | listModules
  | getModuleBytes
deriving DecidableEq, Repr

/-- `build_router`: each path with its methods.  Where two paths match, the one with the fixed
segment stands first. -/
def buildRouter : List (List PathSegment × List (Method × Handler)) :=
  [([.fixed "health"], [(.get, .health)]),
    ([.fixed "metrics"], [(.get, .metrics)]),
    ([.fixed "tasks"], [(.post, .submitTask)]),
    ([.fixed "tasks", .fixed "batch"], [(.post, .submitTasksBatch)]),
    ([.fixed "tasks", .param "id"], [(.get, .getTask)]),
    ([.fixed "nodes", .fixed "register"], [(.post, .registerNode)]),
    ([.fixed "nodes"], [(.get, .listNodes)]),
    ([.fixed "modules"], [(.post, .uploadModule), (.get, .listModules)]),
    ([.fixed "modules", .param "name", .param "version"], [(.get, .getModuleBytes)])]

/-- The handler of a request and its decoded parameters. -/
def route (method : Method) (segs : List (List Char)) : Option (Handler × List String) := do
  let (path, methods) ← buildRouter.find? fun r => (capture r.1 segs).isSome
  let handler ← methods.lookup method
  let captured ← capture path segs
  let params ← captured.mapM decodeParam
  return (handler, params)

/-- The request for a URL. -/
def request (dots : DotSegments) (url : String) : Option (Handler × List String) :=
  route .get (dots.send (segments (requestPath url)))

/-- A text that is a path segment as it stands. -/
structure IsSegment (dots : DotSegments) (text : String) : Prop where
  ne_nil : text.toList ≠ []
  slash : '/' ∉ text.toList
  query : '?' ∉ text.toList
  fragment : '#' ∉ text.toList
  unescaped : Unescaped text.toList
  not_isDot : dots = .resolved → ¬ IsDot text.toList

variable {dots : DotSegments} {name version : String} {segs : List (List Char)}

/-! ## The route of a module -/

/-- The route of a module. -/
def moduleRoute : List PathSegment := [.fixed "modules", .param "name", .param "version"]

/-- No other route leads to `get_module_bytes`. -/
theorem buildRouter_getModuleBytes :
    ∀ r ∈ buildRouter, r.2.lookup .get = some .getModuleBytes → r.1 = moduleRoute := by
  decide

/-- The other routes are shorter. -/
theorem buildRouter_find {caps : List (List Char)} (h : capture moduleRoute segs = some caps) :
    buildRouter.find? (fun r => (capture r.1 segs).isSome) =
      some (moduleRoute, [(.get, .getModuleBytes)]) := by
  refine List.find?_eq_some_iff_append.mpr
    ⟨by rw [h, Option.isSome_some], buildRouter.dropLast, [], rfl, fun r hr => ?_⟩
  have hshort : ∀ r ∈ buildRouter.dropLast, r.1.length < moduleRoute.length := by decide
  have hlen := hshort r hr
  cases hr' : capture r.1 segs with
  | none => rfl
  | some caps' =>
      have hsegs := length_of_capture h
      have hsegs' := length_of_capture hr'
      omega

theorem capture_moduleRoute {caps : List (List Char)} :
    capture moduleRoute segs = some caps ↔
      ∃ s t, segs = ["modules".toList, s, t] ∧ s ≠ [] ∧ t ≠ [] ∧ caps = [s, t] := by
  simp only [moduleRoute, capture_fixed, capture_param, capture_nil]
  constructor
  · rintro ⟨_, rfl, s, _, _, rfl, hs, ⟨t, _, _, rfl, ht, ⟨rfl, rfl⟩, rfl⟩, rfl⟩
    exact ⟨s, t, rfl, hs, ht, rfl⟩
  · rintro ⟨s, t, rfl, hs, ht, rfl⟩
    exact ⟨_, rfl, s, _, _, rfl, hs, ⟨t, _, _, rfl, ht, ⟨rfl, rfl⟩, rfl⟩, rfl⟩

/-- The fixed segment of the route. -/
def modulesSegment : List Char := ['m', 'o', 'd', 'u', 'l', 'e', 's']

theorem toList_modules : "modules".toList = modulesSegment := by
  simp only [String.reduceToList, modulesSegment]

theorem route_getModuleBytes :
    route .get segs = some (.getModuleBytes, [name, version]) ↔
      ∃ s t, segs = [modulesSegment, s, t] ∧ s ≠ [] ∧ t ≠ [] ∧
        decodeParam s = some name ∧ decodeParam t = some version := by
  rw [← toList_modules]
  constructor
  · intro h
    simp only [route, bind, Option.bind_eq_some_iff] at h
    obtain ⟨⟨path, methods⟩, hfind, handler, hmethod, captured, hcapture, params, hparams, heq⟩ := h
    cases heq
    rw [buildRouter_getModuleBytes _ (List.mem_of_find?_eq_some hfind) hmethod,
      capture_moduleRoute] at hcapture
    obtain ⟨s, t, rfl, hs, ht, rfl⟩ := hcapture
    simp only [List.mapM_cons, List.mapM_nil, bind, pure, Option.bind_eq_some_iff] at hparams
    obtain ⟨_, hname, _, ⟨_, hversion, _, hnil, hcons⟩, heq⟩ := hparams
    cases hnil
    cases hcons
    cases heq
    exact ⟨s, t, rfl, hs, ht, hname, hversion⟩
  · rintro ⟨s, t, hsegs, hs, ht, hname, hversion⟩
    have hcapture := capture_moduleRoute.mpr ⟨s, t, hsegs, hs, ht, rfl⟩
    have hmethod : [(Method.get, Handler.getModuleBytes)].lookup .get = some .getModuleBytes := rfl
    simp only [route, bind, pure, buildRouter_find hcapture, Option.bind_some, hmethod, hcapture,
      List.mapM_cons, List.mapM_nil, hname, hversion]

/-! ## The path of a module -/

/-- The path of a module URL without its first `/`. -/
def modulePath (name version : String) : List Char :=
  modulesSegment ++ '/' :: (name.toList ++ '/' :: version.toList)

/-- What of it is sent: all before the first `?` or `#`. -/
def sentPath (name version : String) : List Char :=
  (modulePath name version).takeWhile fun c => !endsPath c

theorem not_mem_modulePath {c : Char} (h : c ∉ '/' :: modulesSegment) :
    c ∉ modulePath name version ↔ c ∉ name.toList ∧ c ∉ version.toList := by
  obtain ⟨hslash, hfixed⟩ := not_or.mp (mt List.mem_cons.mpr h)
  simp [modulePath, hslash, hfixed]

theorem toList_path :
    ("/modules/" ++ name ++ "/" ++ version).toList = '/' :: modulePath name version := by
  simp only [String.toList_append, String.reduceToList, modulePath, modulesSegment,
    List.append_assoc, List.cons_append, List.nil_append]

theorem segments_moduleUrl {base : String} (h : IsOrigin base) :
    segments (requestPath (moduleUrl base name version)) = (sentPath name version).splitOn '/' := by
  have hurl : moduleUrl base name version = base ++ ("/modules/" ++ name ++ "/" ++ version) := by
    simp only [moduleUrl, String.append_assoc]
    rfl
  rw [hurl, requestPath_append h _ toList_path]
  rfl

theorem splitOn_modulePath :
    (modulePath name version).splitOn '/' =
      modulesSegment :: (name.toList.splitOn '/' ++ version.toList.splitOn '/') := by
  rw [modulePath, List.splitOn_append_cons_self_of_not_mem (by decide),
    List.splitOn_append_cons_self]

theorem length_utf8_modulePath (name version : String) :
    (utf8 (modulePath name version)).length + 1 =
      weight [modulesSegment, name.toList, version.toList] := by
  have hslash : (String.utf8EncodeChar '/').length = 1 := rfl
  have hnil : weight [] = 0 := rfl
  simp only [modulePath, utf8_append, utf8_cons, weight_cons, List.length_append, hslash]
  omega

/-! ## Both directions -/

/-- What arrives at the right module has lost nothing on its way, so that its name and its version
were segments. -/
theorem isSegment_of_request {base : String} (hbase : IsOrigin base)
    (h : request dots (moduleUrl base name version) = some (.getModuleBytes, [name, version])) :
    IsSegment dots name ∧ IsSegment dots version := by
  rw [request, segments_moduleUrl hbase, route_getModuleBytes] at h
  obtain ⟨s, t, hsent, hs, ht, hname, hversion⟩ := h
  -- what has arrived is at least as long as what was to be sent
  have harrived : weight [modulesSegment, name.toList, version.toList] ≤
      weight [modulesSegment, s, t] := by
    have hslen := length_le_of_decodeParam hname
    have htlen := length_le_of_decodeParam hversion
    simp only [weight_cons]
    omega
  have hpath := length_utf8_modulePath name version
  have hsplit := weight_splitOn (sentPath name version)
  have hsend := dots.weight_send_le ((sentPath name version).splitOn '/')
  rw [hsent] at hsend
  -- so nothing was cut off, no dot segment was resolved and no escape was decoded
  have hplain : ∀ c ∈ modulePath name version, !endsPath c := by
    refine (takeWhile_cases _ _).resolve_right fun hcut => ?_
    change (utf8 (sentPath name version)).length < _ at hcut
    omega
  have hwhole : sentPath name version = modulePath name version :=
    List.takeWhile_eq_self_iff.mpr hplain
  rw [hwhole] at hsent hsplit
  have hdots := (dots.send_cases ((modulePath name version).splitOn '/')).resolve_right (by
    rw [hsent]
    omega)
  rw [DotSegments.send_of_not_isDot hdots] at hsent
  rw [hsent] at hdots
  rw [splitOn_modulePath, List.cons.injEq] at hsent
  obtain ⟨⟨rfl, hslash⟩, rfl, hslash'⟩ := not_mem_of_splitOn_append_eq hsent.2
  obtain ⟨hquery, hfragment⟩ := forall_not_endsPath.mp hplain
  rw [not_mem_modulePath (by decide)] at hquery hfragment
  have hclear {u : String} (h : decodeParam u.toList = some u) : Unescaped u.toList :=
    unescaped_of_decodeParam h (Nat.le_refl _)
  have hdot {u : List Char} (hu : u ∈ [name.toList, version.toList]) (h : dots = .resolved) :
      ¬ IsDot u := hdots h u (List.mem_cons_of_mem _ hu)
  exact ⟨⟨hs, hslash, hquery.1, hfragment.1, hclear hname, hdot (by simp)⟩,
    ⟨ht, hslash', hquery.2, hfragment.2, hclear hversion, hdot (by simp)⟩⟩

/-- A name and a version that are segments arrive. -/
theorem request_of_isSegment {base : String} (hbase : IsOrigin base) (hname : IsSegment dots name)
    (hversion : IsSegment dots version) :
    request dots (moduleUrl base name version) = some (.getModuleBytes, [name, version]) := by
  have hquery := (not_mem_modulePath (by decide)).mpr ⟨hname.query, hversion.query⟩
  have hfragment := (not_mem_modulePath (by decide)).mpr ⟨hname.fragment, hversion.fragment⟩
  have hwhole : sentPath name version = modulePath name version :=
    List.takeWhile_eq_self_iff.mpr (forall_not_endsPath.mpr ⟨hquery, hfragment⟩)
  have hsplit : (modulePath name version).splitOn '/' =
      [modulesSegment, name.toList, version.toList] := by
    rw [splitOn_modulePath, List.splitOn_eq_singleton hname.slash,
      List.splitOn_eq_singleton hversion.slash, List.singleton_append]
  have hdots : dots = .resolved →
      ∀ s ∈ [modulesSegment, name.toList, version.toList], ¬ IsDot s := by
    intro h
    have hfixed : ¬ IsDot modulesSegment := by
      unfold IsDot
      decide
    simp [hfixed, hname.not_isDot h, hversion.not_isDot h]
  rw [request, segments_moduleUrl hbase, hwhole, hsplit, DotSegments.send_of_not_isDot hdots,
    route_getModuleBytes]
  exact ⟨_, _, rfl, hname.ne_nil, hversion.ne_nil, decodeParam_of_unescaped hname.unescaped,
    decodeParam_of_unescaped hversion.unescaped⟩

/-- The request for a module is routed to `get_module_bytes` with its name and its version exactly
if both are path segments, for a client that sends the path as it is and for one that resolves its
dot segments.  The same holds for the URL that a task carries. -/
theorem moduleUrl_iff {base : String} (hbase : IsOrigin base) (dots : DotSegments) :
    (∀ name version,
      request dots (moduleUrl base name version) = some (.getModuleBytes, [name, version]) ↔
        IsSegment dots name ∧ IsSegment dots version) ∧
    ∀ X st body input ref, st.selfUrl = base →
      resolveTaskInputs X st body = .ok (input, .moduleRef ref) →
      (request dots ref.fetchUrl = some (.getModuleBytes, [ref.name, ref.version]) ↔
        IsSegment dots ref.name ∧ IsSegment dots ref.version) := by
  have hiff (name version : String) :
      request dots (moduleUrl base name version) = some (.getModuleBytes, [name, version]) ↔
        IsSegment dots name ∧ IsSegment dots version :=
    ⟨isSegment_of_request hbase, fun h => request_of_isSegment hbase h.1 h.2⟩
  refine ⟨hiff, fun X st body input ref hself hres => ?_⟩
  obtain ⟨-, -, -, -, hurl⟩ := resolveTaskInputs_moduleRef hres
  rw [hurl, hself]
  exact hiff ref.name ref.version

/-- The default of `SELF_URL`. -/
def localUrl : String := "http://127.0.0.1:8080"

theorem localUrl_isOrigin : IsOrigin localUrl := by
  refine ⟨['h', 't', 't', 'p'], "127.0.0.1:8080".toList, ?_, by decide, ?_⟩
  · simp only [localUrl, String.reduceToList, List.cons_append, List.nil_append]
  · simp only [String.reduceToList]
    exact List.all_eq_true.mp rfl

/-- A module with an ordinary name and version is fetched. -/
theorem plainName_fetched :
    IsOrigin localUrl ∧
    request .resolved (moduleUrl localUrl "m" "1.0") =
      some (.getModuleBytes, ["m", "1.0"]) := by
  refine ⟨localUrl_isOrigin, ((moduleUrl_iff localUrl_isOrigin .resolved).1 "m" "1.0").mpr ⟨?_, ?_⟩⟩
  all_goals
    refine ⟨?_, ?_, ?_, ?_, unescaped_of_not_mem ?_, fun _ => ?_⟩ <;>
      simp only [IsDot, String.reduceToList] <;> decide

/-- The upload of a module with a `/` in its name. -/
def slashUpload : List ControlPlane.Event :=
  .uploadModule ⟨"a/b", "1", ""⟩ :: List.replicate 3 (.run 0 {})

/-- It is accepted, and the module cannot be fetched. -/
theorem slashName_lost :
    ∃ ms s, Run (ControlPlane.Sys.step .sample) (.init localUrl "round_robin") ms s ∧
      getModuleBytes s.shared.app "a/b" "1" = .ok [] ∧ s.shared.app.selfUrl = localUrl ∧
      ∀ dots, request dots (moduleUrl localUrl "a/b" "1") ≠
        some (.getModuleBytes, ["a/b", "1"]) := by
  have htest : (exec (ControlPlane.Sys.step .sample) (.init localUrl "round_robin") slashUpload).any
      (fun s => decide (getModuleBytes s.shared.app "a/b" "1" = .ok [] ∧
        s.shared.app.selfUrl = localUrl)) = true := by decide
  obtain ⟨s, h, hs⟩ := exec_any_run htest
  obtain ⟨hbytes, hself⟩ := of_decide_eq_true hs
  refine ⟨_, s, h, hbytes, hself, fun dots hrequest => ?_⟩
  have hslash := (isSegment_of_request localUrl_isOrigin hrequest).1.slash
  simp only [String.reduceToList] at hslash
  exact hslash (by decide)

end FerroEdge.Fleet
