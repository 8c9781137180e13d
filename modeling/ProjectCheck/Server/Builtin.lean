import ProjectCheck.Server.Spec

/-!
The language servers that are known without any configuration, and common names of languages.
-/
namespace ProjectCheck

def builtinServers : List ServerSpec := [
  { key := "typescript", name := "TypeScript Language Server"
    command := "typescript-language-server", args := ["--stdio"]
    extensions := [".ts", ".tsx", ".js", ".jsx", ".mts", ".cts", ".mjs", ".cjs"]
    installHint := "npm install -g typescript-language-server typescript" },
  { key := "python", name := "Python Language Server (pylsp)", command := "pylsp", args := []
    extensions := [".py", ".pyw"]
    installHint := "pip install python-lsp-server" },
  { key := "rust", name := "Rust Analyzer", command := "rust-analyzer", args := []
    extensions := [".rs"]
    installHint := "rustup component add rust-analyzer" },
  { key := "go", name := "gopls", command := "gopls", args := ["serve"]
    extensions := [".go"]
    installHint := "go install golang.org/x/tools/gopls@latest" },
  { key := "c", name := "clangd", command := "clangd", args := []
    extensions := [".c", ".h", ".cpp", ".cc", ".cxx", ".hpp", ".hxx"]
    installHint := "Install clangd from your package manager or LLVM" },
  { key := "java", name := "Eclipse JDT Language Server", command := "jdtls", args := []
    extensions := [".java"]
    installHint := "Install from https://github.com/eclipse/eclipse.jdt.ls" },
  { key := "json", name := "JSON Language Server"
    command := "vscode-json-language-server", args := ["--stdio"]
    extensions := [".json", ".jsonc"]
    installHint := "npm install -g vscode-langservers-extracted" },
  { key := "html", name := "HTML Language Server"
    command := "vscode-html-language-server", args := ["--stdio"]
    extensions := [".html", ".htm"]
    installHint := "npm install -g vscode-langservers-extracted" },
  { key := "css", name := "CSS Language Server"
    command := "vscode-css-language-server", args := ["--stdio"]
    extensions := [".css", ".scss", ".less"]
    installHint := "npm install -g vscode-langservers-extracted" },
  { key := "yaml", name := "YAML Language Server"
    command := "yaml-language-server", args := ["--stdio"]
    extensions := [".yaml", ".yml"]
    installHint := "npm install -g yaml-language-server" },
  { key := "ruby", name := "Solargraph", command := "solargraph", args := ["stdio"]
    extensions := [".rb", ".rake", ".gemspec"]
    installHint := "gem install solargraph" },
  { key := "php", name := "Intelephense", command := "intelephense", args := ["--stdio"]
    extensions := [".php", ".phtml"]
    installHint := "npm install -g intelephense" },
  { key := "lua", name := "Lua Language Server", command := "lua-language-server", args := []
    extensions := [".lua"]
    installHint := "brew install lua-language-server " ++
      "(or see https://github.com/LuaLS/lua-language-server)" },
  { key := "bash", name := "Bash Language Server"
    command := "bash-language-server", args := ["start"]
    extensions := [".sh", ".bash", ".zsh"]
    installHint := "npm install -g bash-language-server" },
  { key := "elixir", name := "Elixir LS", command := "elixir-ls", args := []
    extensions := [".ex", ".exs"]
    installHint := "See https://github.com/elixir-lsp/elixir-ls" },
  { key := "kotlin", name := "Kotlin Language Server"
    command := "kotlin-language-server", args := []
    extensions := [".kt", ".kts"]
    installHint := "See https://github.com/fwcd/kotlin-language-server" },
  { key := "swift", name := "SourceKit-LSP", command := "sourcekit-lsp", args := []
    extensions := [".swift"]
    installHint := "Included with Xcode or Swift toolchain" },
  { key := "csharp", name := "OmniSharp / csharp-ls", command := "omnisharp", args := ["-lsp"]
    extensions := [".cs"]
    installHint := "dotnet tool install --global csharp-ls" },
  { key := "scala", name := "Metals", command := "metals", args := []
    extensions := [".scala", ".sc", ".sbt"]
    installHint := "cs install metals (requires Coursier)" },
  { key := "zig", name := "ZLS", command := "zls", args := []
    extensions := [".zig"]
    installHint := "See https://github.com/zigtools/zls" },
  { key := "haskell", name := "Haskell Language Server"
    command := "haskell-language-server-wrapper", args := ["--lsp"]
    extensions := [".hs", ".lhs"]
    installHint := "ghcup install hls" }]

def languageAliases : List (String × String) := [
  ("javascript", "typescript"), ("typescript", "typescript"), ("tsx", "typescript"),
  ("jsx", "typescript"), ("python", "python"), ("rust", "rust"), ("go", "go"), ("golang", "go"),
  ("c", "c"), ("cpp", "c"), ("c++", "c"), ("java", "java"), ("json", "json"), ("html", "html"),
  ("css", "css"), ("scss", "css"), ("less", "css"), ("yaml", "yaml"), ("ruby", "ruby"),
  ("php", "php"), ("lua", "lua"), ("bash", "bash"), ("shell", "bash"), ("sh", "bash"),
  ("shellscript", "bash"), ("elixir", "elixir"), ("kotlin", "kotlin"), ("swift", "swift"),
  ("csharp", "csharp"), ("c#", "csharp"), ("scala", "scala"), ("zig", "zig"),
  ("haskell", "haskell"), ("hs", "haskell")]

end ProjectCheck
