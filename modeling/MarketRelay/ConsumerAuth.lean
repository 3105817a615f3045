import MarketRelay.Credentials

/-!
# Authentication and Authorization of API Consumers

The identity of a consumer is referred to by an environment variable whose value is read when a
presented key is compared with it. The authenticator checks the key against every registered
credential, and the dependency of the HTTP handlers turns its errors into generic rejections.

The comparison is `hmac.compare_digest`, which raises `TypeError` on a text with a non-ASCII
character. Neither the authenticator nor the handlers catch it.

## Main results

* `authenticate_meets_iff`: the keys for which the authenticator keeps its promise.
* `rejection_uniform`: what a rejected caller sees does not depend on the configuration.
* `requireScope_internal_iff`: the requests that end as an internal error.
-/

namespace MarketRelay

/-! ### The model -/

/-- Opaque reference to an API consumer's credential. -/
structure ConsumerCredential where
  consumerId : String
  envVar : String
  scopes : List String
deriving DecidableEq, Repr

/-- Resolved identity of an authenticated consumer. -/
structure ConsumerIdentity where
  consumerId : String
  scopes : List String
deriving DecidableEq, Repr

/-- What a call of the authenticator can raise. -/
inductive AccessError where
  /-- Missing or invalid consumer credential. -/
  | authentication (message : String)
  /-- Authenticated, but without the scope that the operation requires. -/
  | authorization (consumerId requiredScope : String)
  /-- The comparison does not take a text with a non-ASCII character. -/
  | typeError
deriving DecidableEq, Repr

/-- The reference under which the value of a credential is resolved. -/
def ConsumerCredential.credentialReference (credential : ConsumerCredential) :
    CredentialReference where
  source := "consumer:" ++ credential.consumerId
  credentialScope := "api-key"
  envVar := credential.envVar

/-- The identity that a match of the credential gives. -/
def ConsumerCredential.identity (credential : ConsumerCredential) : ConsumerIdentity where
  consumerId := credential.consumerId
  scopes := credential.scopes

/-- Is the scope among the authorized ones? -/
def ConsumerIdentity.hasScope (identity : ConsumerIdentity) (scope : String) : Bool :=
  identity.scopes.contains scope

/-- `str.isascii` -/
def isAscii (text : String) : Bool := text.toList.all fun c => c.toNat < 128

/-- `hmac.compare_digest` of two texts. -/
def compareDigest (a b : String) : Except AccessError Bool :=
  if isAscii a && isAscii b then .ok (a == b) else .error .typeError

namespace ConsumerAuthenticator

/-- The loop over the registered credentials. A match does not end it. -/
def authenticateLoop (environment : Environment) (presentedApiKey : String) :
    List ConsumerCredential → Option ConsumerIdentity →
      Except AccessError (Option ConsumerIdentity)
  | [], matched => .ok matched
  | credential :: credentials, matched =>
    match CredentialResolver.resolve environment credential.credentialReference with
    -- No value in this environment: as if the credential did not match.
    | .error _ => authenticateLoop environment presentedApiKey credentials matched
    | .ok configured =>
      match compareDigest configured presentedApiKey with
      | .error e => .error e
      | .ok equal => authenticateLoop environment presentedApiKey credentials
          (if equal then some credential.identity else matched)

/-- Authenticate a presented key against the registered credentials. -/
def authenticate (credentials : List ConsumerCredential) (environment : Environment)
    (presentedApiKey : Option String) : Except AccessError ConsumerIdentity :=
  match presentedApiKey with
  | none => .error (.authentication "Missing consumer credential.")
  | some presented =>
    if presented = "" then .error (.authentication "Missing consumer credential.") else
      match authenticateLoop environment presented credentials none with
      | .error e => .error e
      | .ok none => .error (.authentication "Invalid consumer credential.")
      | .ok (some identity) => .ok identity

/-- Require a scope of an authenticated consumer. -/
def authorize (identity : ConsumerIdentity) (requiredScope : String) : Except AccessError Unit :=
  if identity.hasScope requiredScope then .ok ()
  else .error (.authorization identity.consumerId requiredScope)

end ConsumerAuthenticator

/-- The error response to a request. -/
structure ErrorResponse where
  statusCode : ℕ
  detail : String
  headers : List (String × String)
deriving DecidableEq, Repr

/-- The key in an `Authorization` header: the text after `Bearer `. -/
def extractBearerToken (headerValue : Option String) : Option String :=
  match headerValue with
  | none => none
  | some header =>
    if "Bearer ".toList.isPrefixOf header.toList then
      some (String.ofList (header.toList.drop "Bearer ".length))
    else none

/-- The response to an exception that no handler has caught. -/
def unhandledExceptionHandler (correlationId : String) : ErrorResponse :=
  ⟨500, "Internal error.", [("X-Correlation-ID", correlationId)]⟩

/-- Authenticate and authorize the consumer of a request. -/
def requireScope (scope : String) (credentials : List ConsumerCredential)
    (environment : Environment) (correlationId : String) (authorization : Option String) :
    Except ErrorResponse ConsumerIdentity :=
  let access := do
    let identity ← ConsumerAuthenticator.authenticate credentials environment
      (extractBearerToken authorization)
    ConsumerAuthenticator.authorize identity scope
    return identity
  match access with
  | .ok identity => .ok identity
  | .error (.authentication _) =>
    .error ⟨401, "Not authenticated.", [("WWW-Authenticate", "Bearer")]⟩
  | .error (.authorization _ _) => .error ⟨403, "Access denied.", []⟩
  | .error .typeError => .error (unhandledExceptionHandler correlationId)

/-! ### What a caller is promised -/

/-- The credential has this value in the environment. -/
def ConsumerCredential.HasValue (environment : Environment) (credential : ConsumerCredential)
    (value : String) : Prop :=
  environment credential.envVar = some value ∧ value ≠ ""

instance (environment : Environment) (credential : ConsumerCredential) (value : String) :
    Decidable (credential.HasValue environment value) :=
  inferInstanceAs (Decidable (_ ∧ _))

/-- The presented key is the value of a registered credential. -/
def IsKey (credentials : List ConsumerCredential) (environment : Environment)
    (presented : Option String) (credential : ConsumerCredential) : Prop :=
  credential ∈ credentials ∧ ∃ key, presented = some key ∧ credential.HasValue environment key

/-- The message of a rejection. It is read off the presented key alone. -/
def rejection (presented : Option String) : String :=
  if presented = none ∨ presented = some "" then "Missing consumer credential."
  else "Invalid consumer credential."

/-- A key that is the value of a registered credential gives the identity of one that it is the
value of, and any other key is rejected with the one message. -/
def Meets (credentials : List ConsumerCredential) (environment : Environment)
    (presented : Option String) (outcome : Except AccessError ConsumerIdentity) : Prop :=
  ((∃ credential, IsKey credentials environment presented credential) →
    ∃ credential, IsKey credentials environment presented credential ∧
      outcome = .ok credential.identity) ∧
  ((∀ credential, ¬ IsKey credentials environment presented credential) →
    outcome = .error (.authentication (rejection presented)))

/-- A non-empty key meets a value in the environment, and one of the two is not ASCII. -/
def ComparesNonAscii (credentials : List ConsumerCredential) (environment : Environment)
    (presented : Option String) : Prop :=
  ∃ key, presented = some key ∧ key ≠ "" ∧ ∃ credential ∈ credentials, ∃ value,
    credential.HasValue environment value ∧ ¬ (isAscii value ∧ isAscii key)

/-! ### The loop -/

variable {credentials : List ConsumerCredential} {environment : Environment} {key : String}
  {presented : Option String} {matched : Option ConsumerIdentity}

theorem ConsumerCredential.hasValue_iff {credential : ConsumerCredential} {value : String} :
    credential.HasValue environment value ↔
      CredentialResolver.resolve environment credential.credentialReference = .ok value := by
  rw [CredentialResolver.resolve_eq_ok_iff]
  rfl

theorem ConsumerCredential.HasValue.unique {credential : ConsumerCredential} {a b : String}
    (ha : credential.HasValue environment a) (hb : credential.HasValue environment b) : a = b :=
  Option.some.inj (ha.1.symm.trans hb.1)

/-- A credential that does not resolve has no value. -/
theorem ConsumerCredential.not_hasValue {credential : ConsumerCredential}
    {e : CredentialNotFoundError} {value : String}
    (h : CredentialResolver.resolve environment credential.credentialReference = .error e) :
    ¬ credential.HasValue environment value := by
  intro hvalue
  rw [hasValue_iff, h] at hvalue
  exact nomatch hvalue

namespace ConsumerAuthenticator

/-- If every comparison is of ASCII texts, the loop finds the last credential that the key is the
value of. -/
theorem authenticateLoop_eq_ok
    (hascii : ∀ credential ∈ credentials, ∀ value, credential.HasValue environment value →
      isAscii value ∧ isAscii key) :
    authenticateLoop environment key credentials matched =
      .ok (((credentials.filter fun credential =>
        decide (credential.HasValue environment key)).getLast?.map
          ConsumerCredential.identity).or matched) := by
  induction credentials generalizing matched with
  | nil => rfl
  | cons credential credentials ih =>
      have hrest := fun c hc => hascii c (List.mem_cons_of_mem _ hc)
      cases hresolve :
          CredentialResolver.resolve environment credential.credentialReference with
      | error e =>
          have hno : ¬ credential.HasValue environment key := credential.not_hasValue hresolve
          rw [authenticateLoop, hresolve, List.filter_cons_of_neg (by simpa using hno)]
          exact ih hrest
      | ok value =>
          have hvalue := ConsumerCredential.hasValue_iff.mpr hresolve
          obtain ⟨hv, hk⟩ := hascii credential List.mem_cons_self value hvalue
          simp only [authenticateLoop, hresolve, compareDigest, hv, hk, Bool.and_self, if_true]
          rw [ih hrest]
          by_cases heq : value = key
          · -- This credential matches: it is the result unless a later one matches too.
            subst heq
            rw [List.filter_cons_of_pos (by simpa using hvalue), List.getLast?_cons]
            cases (credentials.filter fun c => decide (c.HasValue environment value)).getLast? <;>
              simp
          · have hno : ¬ credential.HasValue environment key := fun h => heq (hvalue.unique h)
            rw [List.filter_cons_of_neg (by simpa using hno), if_neg (by simpa using heq)]

/-- The first comparison of a non-ASCII text ends the loop. -/
theorem authenticateLoop_typeError
    (h : ∃ credential ∈ credentials, ∃ value, credential.HasValue environment value ∧
      ¬ (isAscii value ∧ isAscii key)) :
    authenticateLoop environment key credentials matched = .error .typeError := by
  induction credentials generalizing matched with
  | nil =>
      obtain ⟨_, hmem, -⟩ := h
      exact nomatch hmem
  | cons credential credentials ih =>
      obtain ⟨c, hmem, value, hvalue, hascii⟩ := h
      cases hresolve :
          CredentialResolver.resolve environment credential.credentialReference with
      | error e =>
          rw [authenticateLoop, hresolve]
          rcases List.mem_cons.mp hmem with rfl | hrest
          · exact absurd hvalue (ConsumerCredential.not_hasValue hresolve)
          · exact ih ⟨c, hrest, value, hvalue, hascii⟩
      | ok configured =>
          by_cases hboth : (isAscii configured && isAscii key) = true
          · simp only [authenticateLoop, hresolve, compareDigest, hboth, if_true]
            rcases List.mem_cons.mp hmem with rfl | hrest
            · -- The value that is compared here is the one that is not ASCII.
              obtain rfl := hvalue.unique (ConsumerCredential.hasValue_iff.mpr hresolve)
              exact absurd (Bool.and_eq_true_iff.mp hboth) hascii
            · exact ih ⟨c, hrest, value, hvalue, hascii⟩
          · simp only [authenticateLoop, hresolve, compareDigest, hboth]
            rfl

theorem authenticate_of_comparesNonAscii (h : ComparesNonAscii credentials environment presented) :
    authenticate credentials environment presented = .error .typeError := by
  obtain ⟨key, rfl, hkey, hcompares⟩ := h
  simp only [authenticate, hkey, if_false, authenticateLoop_typeError hcompares]

/-- Without such a comparison: the last match, or the rejection. -/
theorem authenticate_of_ascii (h : ¬ ComparesNonAscii credentials environment presented) :
    Meets credentials environment presented (authenticate credentials environment presented) := by
  cases presented with
  | none =>
      refine ⟨?_, fun _ => rfl⟩
      rintro ⟨c, -, k, hk, -⟩
      exact nomatch hk
  | some key =>
      by_cases hkey : key = ""
      · subst hkey
        refine ⟨?_, fun _ => rfl⟩
        rintro ⟨c, -, k, hk, -, hne⟩
        exact absurd (Option.some.inj hk).symm hne
      · have hascii : ∀ c ∈ credentials, ∀ value, c.HasValue environment value →
            isAscii value ∧ isAscii key := fun c hc value hvalue =>
          Decidable.byContradiction fun hno => h ⟨key, rfl, hkey, c, hc, value, hvalue, hno⟩
        have hloop : authenticateLoop environment key credentials none = _ :=
          authenticateLoop_eq_ok hascii
        rw [Option.or_none] at hloop
        simp only [authenticate, hkey, if_false, hloop]
        cases hlast : (credentials.filter fun c =>
            decide (c.HasValue environment key)).getLast? with
        | none =>
            have hnone := List.getLast?_eq_none_iff.mp hlast
            refine ⟨?_, fun _ => by simp [rejection, hkey]⟩
            rintro ⟨c, hc, k, hk, hvalue⟩
            obtain rfl := Option.some.inj hk
            exact absurd hvalue (by simpa using List.filter_eq_nil_iff.mp hnone c hc)
        | some c =>
            obtain ⟨hc, hvalue⟩ := List.mem_filter.mp (List.mem_of_getLast? hlast)
            have hisKey : IsKey credentials environment (some key) c :=
              ⟨hc, key, rfl, of_decide_eq_true hvalue⟩
            exact ⟨fun _ => ⟨c, hisKey, rfl⟩, fun hno => absurd hisKey (hno c)⟩

/-- **The authenticator keeps its promise exactly when** no presented key meets a value of the
environment with one of the two not ASCII. -/
theorem authenticate_meets_iff (credentials : List ConsumerCredential) (environment : Environment)
    (presented : Option String) :
    Meets credentials environment presented (authenticate credentials environment presented) ↔
      ¬ ComparesNonAscii credentials environment presented := by
  refine ⟨fun hmeets hcompares => ?_, authenticate_of_ascii⟩
  rw [authenticate_of_comparesNonAscii hcompares] at hmeets
  by_cases hkey : ∃ c, IsKey credentials environment presented c
  · obtain ⟨_, -, hok⟩ := hmeets.1 hkey
    exact nomatch hok
  · exact nomatch hmeets.2 fun c hc => hkey ⟨c, hc⟩

/-- A key with an accent is rejected where no credential has a value, and raises where one has. -/
theorem authenticate_reveals :
    authenticate [⟨"holdria", "KEY", []⟩] (fun _ => none) (some "é") =
      .error (.authentication "Invalid consumer credential.") ∧
    ¬ Meets [⟨"holdria", "KEY", []⟩] (fun _ => some "secret") (some "é")
      (authenticate [⟨"holdria", "KEY", []⟩] (fun _ => some "secret") (some "é")) := by
  refine ⟨rfl, fun hmeets => ?_⟩
  have hraises : authenticate [⟨"holdria", "KEY", []⟩] (fun _ => some "secret") (some "é") =
      .error .typeError := by decide
  rw [hraises] at hmeets
  refine nomatch hmeets.2 ?_
  rintro c ⟨-, key, hkey, hvalue, -⟩
  obtain rfl := Option.some.inj hkey
  exact absurd (Option.some.inj hvalue) (by decide)

/-- **Rejections are uniform**: two configurations that both reject a key, and compare no
non-ASCII text with it, answer it alike. -/
theorem rejection_uniform {credentials' : List ConsumerCredential} {environment' : Environment}
    (h : ¬ ComparesNonAscii credentials environment presented)
    (h' : ¬ ComparesNonAscii credentials' environment' presented)
    (hno : ∀ credential, ¬ IsKey credentials environment presented credential)
    (hno' : ∀ credential, ¬ IsKey credentials' environment' presented credential) :
    authenticate credentials environment presented =
      authenticate credentials' environment' presented :=
  ((authenticate_of_ascii h).2 hno).trans ((authenticate_of_ascii h').2 hno').symm

end ConsumerAuthenticator

/-- **A request ends as an internal error exactly when** its key is so compared. -/
theorem requireScope_internal_iff (scope correlationId : String) (authorization : Option String) :
    requireScope scope credentials environment correlationId authorization =
        .error (unhandledExceptionHandler correlationId) ↔
      ComparesNonAscii credentials environment (extractBearerToken authorization) := by
  constructor
  · intro h
    by_contra hascii
    have hmeets := ConsumerAuthenticator.authenticate_of_ascii hascii
    by_cases hkey : ∃ c, IsKey credentials environment (extractBearerToken authorization) c
    · obtain ⟨c, -, hok⟩ := hmeets.1 hkey
      by_cases hscope : c.identity.hasScope scope = true <;>
        simp [requireScope, hok, bind, Except.bind, ConsumerAuthenticator.authorize, hscope,
          unhandledExceptionHandler, pure, Except.pure] at h
    · have herror := hmeets.2 fun c hc => hkey ⟨c, hc⟩
      simp [requireScope, herror, bind, Except.bind, unhandledExceptionHandler] at h
  · intro h
    rw [requireScope, ConsumerAuthenticator.authenticate_of_comparesNonAscii h]
    rfl

end MarketRelay
