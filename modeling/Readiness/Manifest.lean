import Readiness.Config.Basic

/-!
# What the engine offers

The version, the parts and the exported names, as they are told to callers.
-/

namespace Readiness.Manifest

def version : String := "0.1.0"

def parts : List (String × List String) :=
  [("errors",
      ["NativeReadyError", "IRUnavailable", "AnalysisFailure", "RecursionLimitExceeded",
        "CompilationBlocked", "ConfigError", "ReportFormatError"]),
    ("config", ["ScoringWeights", "EngineConfig", "DEFAULT_CONFIG"]),
    ("ir", ["StmtKind", "Statement", "FunctionIR", "AnalysisTarget"]),
    ("walker", ["IRWalker"]),
    ("reports",
      ["EscapeReport", "MonomorphizationReport", "DevirtualizationReport", "ConstantReport",
        "LifetimeReport", "AnalysisFailureInfo", "ReadinessReport"]),
    ("escape_analysis", ["analyze_escapes"]),
    ("monomorphization", ["analyze_monomorphization"]),
    ("devirtualization", ["analyze_devirtualization"]),
    ("constant_propagation", ["analyze_constants"]),
    ("lifetime_analysis", ["analyze_lifetimes"]),
    ("scorer", ["ReadinessScorer", "quick_check"]),
    ("cache", ["CacheService"]),
    ("scanner", ["analyzable", "scan", "analyze_all", "analyze_module", "ModuleSummary"]),
    ("reporting",
      ["export", "to_json", "parse", "from_json", "compare", "ReportDelta", "append_history",
        "read_history", "score_trend", "render_text"]),
    ("ci_gate", ["GateResult", "check", "evaluate", "write_ci_report", "require_ready"]),
    ("suggestions",
      ["suggest_optimizations", "suggest_stack_promotion", "suggest_lifetime_improvements"])]

def partNames : List String := TypeSet.sortedNames (parts.map Prod.fst)

def exports : List String :=
  TypeSet.sortedNames (parts.flatMap fun (part, names) => names ++ [part])

def toJson : Json :=
  .obj [("version", .str version), ("modules", Json.ofStrings partNames),
    ("config", Config.standard.toJson), ("exports", Json.ofStrings exports)]

end Readiness.Manifest
